/-
What issuing a loop does to a region (`issue_cases`): either it found no
slot and did nothing, or the loop is finished, failed, or left in a slot
that was free. A slot that was taken for a loop that is not left in it has
been given back. The variant has one more launch, but for a loop that failed
because there is no tree for it.
-/
import AdaptiveLoops.Proofs.Region.Counters
import AdaptiveLoops.Proofs.Variant.Launch

namespace AdaptiveLoops.Region

open Device (Stream LaunchId)

variable {α : Type}

/-- What issuing a loop under a variant can come to, where `suits` means that there is a tree for it. -/
inductive Issues (r : Region α) (stream : Stream) (v : Variant) (candidate : Nat) (suits : Prop) :
    Issue α → Prop where
  | refused (hasync : v.policy.isAsync = true) (hfull : r.pool.free = []) (hfail : r.onExhausted = .fail) :
    Issues r stream v candidate suits
      ⟨r, stream, none, .error (.poolExhausted r.pool.site r.pool.capacity)⟩
  | finished {v' : Variant} {after : Stream} {work : Option Work} {elapsed : Duration}
      (hv : v.Launched v') (hreaches : stream.Reaches after) :
    Issues r stream v candidate suits ⟨r.setVariant candidate v', after, work, .ok (.finished elapsed)⟩
  | failed {v' : Variant} {after : Stream} {work : Option Work} {e : LoopError}
      (hv : suits → v.Launched v') (he : e.isOfPool = false) (hreaches : stream.Reaches after) :
    Issues r stream v candidate suits ⟨r.setVariant candidate v', after, work, .error e⟩
  | left {v' : Variant} {after : Stream} {work : Option Work} {slot : Nat} {pool : Pool} {launch : LaunchId}
      (hv : v.Launched v') (hp : r.pool.acquire = .ok (slot, pool))
      (hlaunch : ∃ work, stream.launch work = .ok (launch, after)) :
    Issues r stream v candidate suits
      ⟨{ r with pool }.setVariant candidate v', after, work, .ok (.pending slot launch)⟩

variable {r : Region α} {stream : Stream} {v v' : Variant} {candidate : Nat} {suits : Prop} {e : Execution}

theorem settle_cases (h : v.Ran suits stream v' e) :
    Issues r stream v candidate suits ((r.setVariant candidate v').settle e) := by
  unfold settle
  split
  · next error herror => exact .failed h.launched (h.runs.error error herror) h.runs.reaches
  · next elapsed hok => exact .finished (h.launched_of_ok _ hok) h.runs.reaches
  · next id hok =>
    have hv := h.launched_of_ok _ hok
    have hwait : stream.Reaches (e.stream.wait id) := h.runs.reaches.trans (Device.Stream.reaches_wait _ id)
    dsimp only
    split
    · next outcome _ =>
      cases outcome with
      | completed elapsed => exact .finished hv hwait
      | failed message => exact .failed (fun _ => hv) rfl hwait
    · exact .failed (fun _ => hv) rfl hwait

theorem keep_cases (hpool : r.pool.Valid) (h : v.Ran suits stream v' e) {slot : Nat} {pool : Pool}
    (hp : r.pool.acquire = .ok (slot, pool)) :
    Issues r stream v candidate suits (({ r with pool }.setVariant candidate v').keep slot e) := by
  have hrelease : ∀ isComplete, ({ r with pool }.setVariant candidate v').pool.release isComplete slot =
      .ok r.pool := hpool.release_acquired hp
  unfold keep
  split
  · next id hok => exact .left (h.launched_of_ok _ hok) hp (h.runs.pending id hok)
  · next elapsed hok =>
    rw [releasing, hrelease]
    exact .finished (h.launched_of_ok _ hok) h.runs.reaches
  · next error herror =>
    rw [releasing, hrelease]
    exact .failed h.launched (h.runs.error error herror) h.runs.reaches

/-- **What issuing a loop can come to**, whatever the loop and the stream are. -/
theorem issue_cases (hpool : r.pool.Valid) (space : IterationSpace) (body : Body) (now : Moment) :
    Issues r stream v candidate (v.policy.Suits space) (r.issue v stream candidate space body now) := by
  unfold issue
  split
  · next hasync =>
    split
    · next slot pool hp => exact keep_cases hpool (v.issue_ran v.policy stream space body now) hp
    · next error hp =>
      obtain ⟨hfull, rfl⟩ := Pool.acquire_eq_error hp
      -- The fallback launches under the synchronous policy, for which there is a tree where there is one.
      split
      · next hfail => exact .refused hasync hfull hfail
      · have hran := v.issue_ran v.policy.synchronous stream space body now
        rw [Policy.suits_synchronous] at hran
        exact settle_cases hran
  · exact settle_cases (v.issue_ran v.policy stream space body now)

end AdaptiveLoops.Region
