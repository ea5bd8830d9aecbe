/-
Calls of a variant, one after the other.

A variant keeps every tree it was ever asked for under its policy and its
rank, and gives it out again from the same place (`kept?`). What the calls of
a run obtain is kept in a log, and the log tells all that can be seen of the
variant afterwards (`Follows`): the trees are those that building gives,
whatever space a kept one was built for, and the launches and the prepared
ranks are those of the calls that obtained a tree.
-/
import AdaptiveLoops.Proofs.Variant.Trees

namespace AdaptiveLoops.Variant

open Device (Stream)

/-- A call that asks a variant for a tree, and may launch it. -/
inductive Call where
  | tree (policy : Policy) (space : IterationSpace)
  | launch (stream : Stream) (space : IterationSpace) (body : Body) (now : Moment)
  | launchSynchronously (stream : Stream) (space : IterationSpace) (body : Body) (now : Moment)

namespace Call

/-- The policy that a variant with the policy `own` is asked under. -/
def policy (own : Policy) : Call → Policy
  | .tree policy _ => policy
  | .launch _ _ _ _ => own
  | .launchSynchronously _ _ _ _ => own.synchronous

def space : Call → IterationSpace
  | .tree _ space => space
  | .launch _ space _ _ => space
  | .launchSynchronously _ space _ _ => space

def rank (c : Call) : Nat :=
  c.space.rank

def isLaunch : Call → Bool
  | .tree _ _ => false
  | .launch _ _ _ _ => true
  | .launchSynchronously _ _ _ _ => true

end Call

/-- What a variant comes to by a call. -/
def after (v : Variant) : Call → Variant
  | .tree policy space => (v.tree policy space).1
  | .launch stream space body now => (v.launch stream space body now).1
  | .launchSynchronously stream space body now => (v.launchSynchronously stream space body now).1

def run (v : Variant) (calls : List Call) : Variant :=
  calls.foldl after v

/-- The tree that a call obtains, with its place. -/
def obtained (v : Variant) (c : Call) : Except LoopError (Nat × Statement) :=
  (v.tree (c.policy v.policy) c.space).2

/-- A call that was made, and the tree that it obtained. -/
structure Entry where
  call : Call
  obtained : Except LoopError (Nat × Statement)

def Entry.succeeded (e : Entry) : Bool :=
  e.obtained.isOk

/-- The calls of a run with the trees that they obtain. -/
def log (v : Variant) : List Call → List Entry
  | [] => []
  | c :: calls => ⟨c, v.obtained c⟩ :: (v.after c).log calls

/-! ## Trees that are kept -/

/-- No two trees are kept for one policy and rank. -/
def Distinct (trees : List PreparedTree) : Prop :=
  trees.Pairwise fun t t' => t.policy = t'.policy → t.rank ≠ t'.rank

/-- The tree that is kept for a policy and a rank, with its place. -/
def kept? (v : Variant) (policy : Policy) (rank : Nat) : Option (Nat × Statement) :=
  (v.placeOf? policy rank).map fun place => (place, ((v.trees[place]?).map (·.tree)).getD default)

variable {v v' : Variant} {policy : Policy} {rank : Nat} {found : Nat × Statement}

theorem tree_outcomes (v : Variant) (policy : Policy) (space : IterationSpace) :
    (∃ found, v.kept? policy space.rank = some found ∧ v.tree policy space = (v, .ok found)) ∨
    v.kept? policy space.rank = none ∧
      ((∃ e, v.tree policy space = (v, .error e)) ∨
        ∃ tree, v.tree policy space =
          ({ v with trees := v.trees ++ [⟨policy, space.rank, tree⟩] }, .ok (v.trees.length, tree))) := by
  unfold tree kept?
  cases v.placeOf? policy space.rank with
  | some place => exact .inl ⟨_, rfl, rfl⟩
  | none =>
    refine .inr ⟨rfl, ?_⟩
    cases Statement.build space policy with
    | error e => exact .inl ⟨e, rfl⟩
    | ok tree => exact .inr ⟨tree, rfl⟩

theorem exists_mem_of_kept? (h : v.kept? policy rank = some found) :
    ∃ t ∈ v.trees, t.policy = policy ∧ t.rank = rank := by
  obtain ⟨place, hplace, -⟩ := Option.map_eq_some_iff.1 h
  obtain ⟨t, ht, -, hpolicy, hrank⟩ := placeOf?_eq_some hplace
  exact ⟨t, ht, hpolicy, hrank⟩

theorem kept?_eq_none : v.kept? policy rank = none ↔ ∀ t ∈ v.trees, t.policy = policy → t.rank ≠ rank := by
  simp [kept?, placeOf?, List.findIdx?_eq_none_iff]

theorem kept?_congr (h : v'.trees = v.trees) : v'.kept? policy rank = v.kept? policy rank := by
  rw [kept?, placeOf?, h, kept?, placeOf?]

theorem kept?_append (h : v.kept? policy rank = some found) {ts : List PreparedTree}
    (hv' : v'.trees = v.trees ++ ts) : v'.kept? policy rank = some found := by
  obtain ⟨place, hplace, rfl⟩ := Option.map_eq_some_iff.1 h
  obtain ⟨t, -, hget, -, -⟩ := placeOf?_eq_some hplace
  have hlt : place < v.trees.length := (List.getElem?_eq_some_iff.1 hget).1
  unfold placeOf? at hplace
  simp [kept?, placeOf?, hv', List.findIdx?_append, hplace, List.getElem?_append_left hlt]

theorem kept?_concat (h : v.kept? policy rank = none) {tree : Statement}
    (hv' : v'.trees = v.trees ++ [⟨policy, rank, tree⟩]) :
    v'.kept? policy rank = some (v.trees.length, tree) := by
  have hplace : v.placeOf? policy rank = none := Option.map_eq_none_iff.1 h
  unfold placeOf? at hplace
  simp [kept?, placeOf?, hv', List.findIdx?_append, hplace, List.findIdx?_cons]

/-! ## One call -/

variable {c : Call}

theorem after_eq (v : Variant) (c : Call) : v.after c =
    match v.tree (c.policy v.policy) c.space with
    | (v', .error _) => v'
    | (v', .ok _) => if c.isLaunch then v'.recordLaunch else v' := by
  cases c with
  | tree policy space =>
    simp only [after, Call.policy, Call.space, Call.isLaunch]
    rcases v.tree policy space with ⟨v', _ | _⟩ <;> rfl
  | launch stream space body now =>
    simp only [after, launch, issue, Call.policy, Call.space, Call.isLaunch]
    rcases v.tree v.policy space with ⟨v', _ | _⟩ <;> rfl
  | launchSynchronously stream space body now =>
    simp only [after, launchSynchronously, issue, Call.policy, Call.space, Call.isLaunch]
    rcases v.tree v.policy.synchronous space with ⟨v', _ | _⟩ <;> rfl

/-- **A call that obtains no tree leaves the variant as it was**, with none kept for the next one. -/
theorem after_of_error {e : LoopError} (h : v.obtained c = .error e) :
    v.after c = v ∧ v.kept? (c.policy v.policy) c.rank = none := by
  rw [obtained] at h
  rcases v.tree_outcomes (c.policy v.policy) c.space with ⟨found, -, htree⟩ | ⟨hnone, ⟨e', htree⟩ | ⟨tree, htree⟩⟩
  · rw [htree] at h
    cases h
  · rw [after_eq, htree]
    exact ⟨rfl, hnone⟩
  · rw [htree] at h
    cases h

/-- What a variant has after a call that obtained a tree. -/
structure Obtains (v : Variant) (c : Call) (found : Nat × Statement) (v' : Variant) : Prop where
  policy : v'.policy = v.policy
  launches : v'.launches = v.launches + if c.isLaunch then 1 else 0
  trees : (v.kept? (c.policy v.policy) c.rank = some found ∧ v'.trees = v.trees) ∨
    (v.kept? (c.policy v.policy) c.rank = none ∧ found.1 = v.trees.length ∧
      v'.trees = v.trees ++ [⟨c.policy v.policy, c.rank, found.2⟩])

theorem after_of_ok (h : v.obtained c = .ok found) : v.Obtains c found (v.after c) := by
  rw [obtained] at h
  rcases v.tree_outcomes (c.policy v.policy) c.space with ⟨found', hkept, htree⟩ | ⟨hnone, ⟨e, htree⟩ | ⟨tree, htree⟩⟩
  · rw [htree] at h
    cases h
    rw [after_eq, htree]
    refine ⟨?_, ?_, .inl ⟨hkept, ?_⟩⟩ <;> by_cases hlaunch : c.isLaunch <;> simp [hlaunch, recordLaunch]
  · rw [htree] at h
    cases h
  · rw [htree] at h
    cases h
    rw [after_eq, htree]
    refine ⟨?_, ?_, .inr ⟨hnone, rfl, ?_⟩⟩ <;> by_cases hlaunch : c.isLaunch <;>
      simp [hlaunch, recordLaunch, Call.rank]

namespace Obtains

theorem kept (h : v.Obtains c found v') : v'.kept? (c.policy v.policy) c.rank = some found := by
  rcases h.trees with ⟨hkept, htrees⟩ | ⟨hnone, hplace, htrees⟩
  · rwa [kept?_congr htrees]
  · rw [kept?_concat hnone htrees, ← hplace]

theorem kept_of (h : v.Obtains c found v') {found' : Nat × Statement}
    (hkept : v.kept? policy rank = some found') : v'.kept? policy rank = some found' := by
  rcases h.trees with ⟨-, htrees⟩ | ⟨-, -, htrees⟩
  · rwa [kept?_congr htrees]
  · exact kept?_append hkept htrees

theorem mem_trees (h : v.Obtains c found v') {t : PreparedTree} (ht : t ∈ v'.trees) :
    t ∈ v.trees ∨ (t.policy = c.policy v.policy ∧ t.rank = c.rank) := by
  rcases h.trees with ⟨-, htrees⟩ | ⟨-, -, htrees⟩
  · rw [htrees] at ht
    exact .inl ht
  · rw [htrees, List.mem_append, List.mem_singleton] at ht
    rcases ht with ht | rfl
    · exact .inl ht
    · exact .inr ⟨rfl, rfl⟩

theorem distinct (h : v.Obtains c found v') (hv : Distinct v.trees) : Distinct v'.trees := by
  rcases h.trees with ⟨-, htrees⟩ | ⟨hnone, -, htrees⟩
  · rw [htrees]
    exact hv
  · rw [htrees]
    refine List.pairwise_append.2 ⟨hv, List.pairwise_singleton _ _, fun t ht t' ht' hpolicy => ?_⟩
    obtain rfl := List.mem_singleton.1 ht'
    exact kept?_eq_none.1 hnone t ht hpolicy

end Obtains

theorem Prepared.after (h : v.Prepared) (c : Call) : (v.after c).Prepared := by
  cases c with
  | tree policy space => exact (h.tree policy space).1
  | launch stream space body now => exact (h.issue v.policy stream space body now).1
  | launchSynchronously stream space body now => exact (h.issue v.policy.synchronous stream space body now).1

/-! ## Runs of calls -/

/-- A variant that has made the calls of a log. -/
structure Follows (own : Policy) (log : List Entry) (v : Variant) : Prop where
  policy : v.policy = own
  prepared : v.Prepared
  distinct : Distinct v.trees
  fresh : ∀ e ∈ log, e.obtained.map (·.2) = Statement.build e.call.space (e.call.policy own)
  kept : ∀ e ∈ log, ∀ found, e.obtained = .ok found → v.kept? (e.call.policy own) e.call.rank = some found
  origin : ∀ t ∈ v.trees, ∃ e ∈ log, e.succeeded = true ∧ e.call.policy own = t.policy ∧ e.call.rank = t.rank
  launches : v.launches = log.countP fun e => e.call.isLaunch && e.succeeded

variable {own : Policy} {past : List Entry}

theorem follows_instantiate {site : CallSite} {index : Nat} {stream : Stream}
    (h : instantiate site index own stream = .ok v) : v.Follows own [] := by
  obtain ⟨hprepared, hpolicy⟩ := prepared_instantiate h
  unfold instantiate at h
  split at h
  · cases h
  · cases h
    exact ⟨hpolicy, hprepared, .nil, by simp, by simp, by simp, rfl⟩

theorem Follows.obtained (h : v.Follows own past) (c : Call) :
    (v.obtained c).map (·.2) = Statement.build c.space (c.policy own) := by
  rw [← h.policy]
  exact (h.prepared.tree (c.policy v.policy) c.space).2.2

theorem Follows.refused (h : v.Follows own past) {e : LoopError} (hc : v.obtained c = .error e) :
    v.Follows own (past ++ [⟨c, .error e⟩]) where
  policy := h.policy
  prepared := h.prepared
  distinct := h.distinct
  fresh := List.forall_mem_append.2 ⟨h.fresh, by simpa [hc] using h.obtained c⟩
  kept := List.forall_mem_append.2 ⟨h.kept, by simp⟩
  origin t ht := by
    obtain ⟨entry, hentry, hkey⟩ := h.origin t ht
    exact ⟨entry, List.mem_append_left _ hentry, hkey⟩
  launches := by simp [h.launches, Entry.succeeded, Except.isOk, Except.toBool]

/-- A tree that was obtained is kept from then on, whether it was built before or for this call. -/
theorem Follows.obtains (h : v.Follows own past) (hc : v.obtained c = .ok found)
    (hdoes : v.Obtains c found v') (hprepared : v'.Prepared) : v'.Follows own (past ++ [⟨c, .ok found⟩]) where
  policy := hdoes.policy.trans h.policy
  prepared := hprepared
  distinct := hdoes.distinct h.distinct
  fresh := List.forall_mem_append.2 ⟨h.fresh, by simpa [hc] using h.obtained c⟩
  kept := by
    have hnew := hdoes.kept
    rw [h.policy] at hnew
    refine List.forall_mem_append.2 ⟨fun e he found' hfound => hdoes.kept_of (h.kept e he found' hfound), ?_⟩
    refine List.forall_mem_singleton.2 fun found' hfound => ?_
    cases hfound
    exact hnew
  origin t ht := by
    rcases hdoes.mem_trees ht with ht | ⟨hpolicy, hrank⟩
    · obtain ⟨entry, hentry, hkey⟩ := h.origin t ht
      exact ⟨entry, List.mem_append_left _ hentry, hkey⟩
    · refine ⟨⟨c, .ok found⟩, by simp, rfl, ?_, hrank.symm⟩
      rw [hpolicy, h.policy]
  launches := by
    rw [hdoes.launches, h.launches, List.countP_append]
    by_cases hlaunch : c.isLaunch <;> simp [hlaunch, Entry.succeeded, Except.isOk, Except.toBool]

theorem Follows.after (h : v.Follows own past) (c : Call) :
    (v.after c).Follows own (past ++ [⟨c, v.obtained c⟩]) := by
  cases hc : v.obtained c with
  | error e =>
    rw [(after_of_error hc).1]
    exact h.refused hc
  | ok found => exact h.obtains hc (after_of_ok hc) (h.prepared.after c)

theorem Follows.run : ∀ (calls : List Call) {v : Variant} {past : List Entry}, v.Follows own past →
    (v.run calls).Follows own (past ++ v.log calls)
  | [], v, past, h => by simpa [Variant.run, log] using h
  | c :: calls, v, past, h => by
    have hrun := Follows.run calls (h.after c)
    rw [List.append_assoc] at hrun
    exact hrun

/-! ## What can be seen of a variant -/

theorem Follows.pairwise_preparedRanks (h : v.Follows own past) : v.preparedRanks.Pairwise (· < ·) := by
  let ranks := (v.trees.filter fun t => t.policy == v.policy).map (·.rank)
  have hsorted : v.preparedRanks.Pairwise (· ≤ ·) := by
    have hpairwise : (ranks.mergeSort fun r r' => decide (r ≤ r')).Pairwise fun r r' => decide (r ≤ r') = true :=
      List.pairwise_mergeSort (by simpa using fun _ _ _ => Nat.le_trans) (by simpa using Nat.le_total) ranks
    simpa [preparedRanks, ranks] using hpairwise
  have hranks : ranks.Nodup := by
    refine List.pairwise_map.2 ((h.distinct.filter _).imp_of_mem fun {t t'} ht ht' hdistinct => ?_)
    have hpolicy := (List.mem_filter.1 ht).2
    have hpolicy' := (List.mem_filter.1 ht').2
    rw [beq_iff_eq] at hpolicy hpolicy'
    exact hdistinct (hpolicy.trans hpolicy'.symm)
  have hnodup : v.preparedRanks.Nodup := (List.mergeSort_perm ranks _).nodup_iff.2 hranks
  exact hsorted.imp₂ (fun _ _ hle hne => Nat.lt_of_le_of_ne hle hne) hnodup

theorem Follows.mem_preparedRanks (h : v.Follows own past) : rank ∈ v.preparedRanks ↔
    ∃ e ∈ past, e.succeeded = true ∧ e.call.policy own = own ∧ e.call.rank = rank := by
  simp only [preparedRanks, List.mem_mergeSort, List.mem_map, List.mem_filter, beq_iff_eq, h.policy]
  constructor
  · rintro ⟨t, ⟨ht, hpolicy⟩, rfl⟩
    obtain ⟨e, he, hsucceeded, hkey, hrank⟩ := h.origin t ht
    exact ⟨e, he, hsucceeded, hkey.trans hpolicy, hrank⟩
  · rintro ⟨⟨c, obtained⟩, he, hsucceeded, hpolicy, rfl⟩
    cases obtained with
    | error e => cases hsucceeded
    | ok found =>
      obtain ⟨t, ht, htpolicy, hrank⟩ := exists_mem_of_kept? (h.kept _ he found rfl)
      exact ⟨t, ⟨ht, htpolicy.trans hpolicy⟩, hrank⟩

/-- What a log tells of the variant that made its calls. -/
structure Shows (own : Policy) (log : List Entry) (v : Variant) : Prop where
  /-- Every call obtains what building gives, be it a tree or what is wrong with it. -/
  fresh : ∀ e ∈ log, e.obtained.map (·.2) = Statement.build e.call.space (e.call.policy own)
  /-- Calls that obtain a tree for the same policy and rank obtain it from the same place. -/
  shared : ∀ e ∈ log, ∀ e' ∈ log, e.call.policy own = e'.call.policy own → e.call.rank = e'.call.rank →
    ∀ found found', e.obtained = .ok found → e'.obtained = .ok found' → found = found'
  launches : v.launches = log.countP fun e => e.call.isLaunch && e.succeeded
  increasing : v.preparedRanks.Pairwise (· < ·)
  mem_preparedRanks : ∀ rank, rank ∈ v.preparedRanks ↔
    ∃ e ∈ log, e.succeeded = true ∧ e.call.policy own = own ∧ e.call.rank = rank

theorem Follows.shows (h : v.Follows own past) : v.Shows own past where
  fresh := h.fresh
  shared e he e' he' hpolicy hrank found found' hfound hfound' := by
    have hkept := h.kept e he found hfound
    rw [hpolicy, hrank, h.kept e' he' found' hfound'] at hkept
    exact (Option.some.inj hkept).symm
  launches := h.launches
  increasing := h.pairwise_preparedRanks
  mem_preparedRanks _ := h.mem_preparedRanks

/--
**The trees that a variant keeps never show**, whatever it was asked for
before, under whatever policies and for whatever spaces. A call for which no
tree can be built leaves the variant as it was, with nothing kept that the
next one would find, and a loop that is launched runs the tree that building
gives.
-/
theorem run_hides_trees {site : CallSite} {index : Nat} {policy : Policy} {stream : Stream} {v : Variant}
    (h : instantiate site index policy stream = .ok v) (calls : List Call) :
    let w := v.run calls
    w.Shows policy (v.log calls) ∧
    (∀ c e, w.obtained c = .error e → w.after c = w ∧ w.kept? (c.policy policy) c.rank = none) ∧
    ∀ stream space body now,
      (w.launch stream space body now).2 = Statement.dispatch stream policy space body now ∧
      (w.launchSynchronously stream space body now).2 =
        Statement.dispatch stream policy.synchronous space body now := by
  intro w
  have hfollows : w.Follows policy (v.log calls) := (follows_instantiate h).run calls
  refine ⟨hfollows.shows, fun c e hobtained => ?_, fun stream space body now => ?_⟩
  · have hafter := after_of_error hobtained
    rwa [hfollows.policy] at hafter
  · rw [launch, launchSynchronously, hfollows.policy]
    exact ⟨hfollows.prepared.issue_eq .., hfollows.prepared.issue_eq ..⟩

/-- A launch, a longer loop, the fallback, and two trees that cannot be built. -/
theorem run_hides_trees_device :
    let v : Variant := ⟨.named "saxpy", 0, .device 4 .async, [], 0⟩
    let body : Body := fun _ => none
    let calls : List Call := [.launch .empty ⟨[⟨0, 8⟩]⟩ body ⟨.serial, ⟨0⟩⟩,
      .tree (.device 4 .async) ⟨[⟨0, 400⟩]⟩, .launchSynchronously .empty ⟨[⟨0, 8⟩]⟩ body ⟨.serial, ⟨0⟩⟩,
      .tree (.device 0 .sync) ⟨[⟨0, 8⟩]⟩, .launch .empty ⟨[]⟩ body ⟨.serial, ⟨0⟩⟩]
    instantiate (.named "saxpy") 0 (.device 4 .async) .empty = .ok v ∧
      (v.run calls).Shows (.device 4 .async) (v.log calls) := by
  intro v body calls
  have hnew : instantiate (.named "saxpy") 0 (.device 4 .async) .empty = .ok v := rfl
  exact ⟨hnew, (run_hides_trees hnew calls).1⟩

end AdaptiveLoops.Variant
