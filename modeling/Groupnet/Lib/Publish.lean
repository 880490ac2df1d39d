import Groupnet.Lib.Machine

/-!
# Publishing a shared state

Several callers share a state.  A call folds into the state and encodes it in one step, under
a lock.  It enqueues what it encoded in a later step, so other calls can come in between.  A
call may also have nothing to publish.

The callers need not enqueue in the order of their folds.  When they do, the newest encoding
is always that of the state.
-/

namespace Groupnet.Publish

/-- A shared state, what was encoded and not yet enqueued, oldest first, and the last value
enqueued. -/
structure Shared (σ β : Type) where
  mem : σ
  pending : List β
  last : Option β

inductive Act (κ : Type) where
  /-- The locked part of a call. -/
  | fold (call : κ)
  /-- The enqueue of one of the encodings still pending. -/
  | enqueue (index : Nat)

variable {σ β κ : Type} {run : σ → κ → σ × Option β} {encode : σ → β} {s s' : Shared σ β}

def step (run : σ → κ → σ × Option β) (s : Shared σ β) : Act κ → Option (Shared σ β × Unit)
  | .fold call =>
    let folded := run s.mem call
    some ({ s with mem := folded.1, pending := s.pending ++ folded.2.toList }, ())
  | .enqueue index => do
    let encoded ← s.pending[index]?
    some ({ s with pending := s.pending.eraseIdx index, last := some encoded }, ())

/-- The oldest encoding is enqueued first, and every call is one of the given ones. -/
def inOrder (fair : κ → Bool) (_ : Shared σ β) : Act κ → Bool
  | .fold call => fair call
  | .enqueue index => index = 0

/-- Everything encoded so far that is not overwritten, oldest first. -/
def Shared.published (s : Shared σ β) : List β := s.last.toList ++ s.pending

/-- The newest encoding is that of the state.  Without one the state is still what it was. -/
def Current (encode : σ → β) (start : σ) (s : Shared σ β) : Prop :=
  s.published.getLast?.getD (encode start) = encode s.mem

theorem current_step {fair : κ → Bool} {start : σ} {act : Act κ} {answer : Unit}
    (hsome : ∀ mem call encoded, (run mem call).2 = some encoded →
      encoded = encode (run mem call).1)
    (hnone : ∀ mem call, fair call = true → (run mem call).2 = none →
      encode (run mem call).1 = encode mem)
    (h : Current encode start s) (hok : inOrder fair s act = true)
    (hstep : step run s act = some (s', answer)) :
    Current encode start s' := by
  cases act with
  | fold call =>
    cases hstep
    show (s.last.toList ++ (s.pending ++ (run s.mem call).2.toList)).getLast?.getD _ = _
    rw [← List.append_assoc]
    cases hencoded : (run s.mem call).2 with
    | none =>
      rw [Option.toList_none, List.append_nil, hnone s.mem call hok hencoded]
      exact h
    | some encoded =>
      rw [Option.toList_some, List.getLast?_concat, Option.getD_some]
      exact hsome s.mem call encoded hencoded
  | enqueue index =>
    obtain ⟨encoded, hget, hstep⟩ := Option.bind_eq_some_iff.mp hstep
    cases hstep
    obtain rfl : index = 0 := by simpa [inOrder] using hok
    cases hpending : s.pending with
    | nil =>
      rw [hpending] at hget
      cases hget
    | cons oldest rest =>
      obtain rfl : oldest = encoded := by simpa [hpending] using hget
      -- what is enqueued takes the place of what was enqueued before
      have hlast (older : List β) : (older ++ oldest :: rest).getLast? =
          (oldest :: rest).getLast? := by
        rw [List.getLast?_append, List.getLast?_eq_some_getLast (List.cons_ne_nil oldest rest)]
        rfl
      have h' : (s.last.toList ++ oldest :: rest).getLast?.getD (encode start) = encode s.mem :=
        hpending ▸ h
      rw [hlast] at h'
      exact h'

/-- When every call enqueues in the order of the folds and all have enqueued, the last value is
the encoding of the state. -/
theorem last_of_inOrder {fair : κ → Bool} {mem : σ} {acts : List (Act κ)} {answers : List Unit}
    (hsome : ∀ mem call encoded, (run mem call).2 = some encoded →
      encoded = encode (run mem call).1)
    (hnone : ∀ mem call, fair call = true → (run mem call).2 = none →
      encode (run mem call).1 = encode mem)
    (hmeets : meets (step run) (inOrder fair) ⟨mem, [], none⟩ acts = true)
    (hrun : drive (step run) ⟨mem, [], none⟩ acts = some (s, answers)) (hdone : s.pending = []) :
    s.last.getD (encode mem) = encode s.mem := by
  have hstart : Current encode mem (⟨mem, [], none⟩ : Shared σ β) := rfl
  have h : Current encode mem s :=
    drive_invariant_of_meets hstart (fun h hok hstep => current_step hsome hnone h hok hstep)
      hmeets hrun
  unfold Current Shared.published at h
  rw [hdone, List.append_nil] at h
  cases hlast : s.last with
  | none => rwa [hlast] at h
  | some value => rwa [hlast] at h

end Groupnet.Publish
