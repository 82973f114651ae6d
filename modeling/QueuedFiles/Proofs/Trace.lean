/-!
Runs of a system that makes one move at a time, if the move can be made, with a log of what others see
of its moves.
-/

namespace QueuedFiles

variable {σ μ ι : Type} {next : σ → μ → Option (List ι × σ)} {s t u : σ} {log more : List ι}

inductive Trace (next : σ → μ → Option (List ι × σ)) (s : σ) : List ι → σ → Prop
  | refl : Trace next s [] s
  | step {log more : List ι} {t u : σ} (m : μ) :
      Trace next s log t → next t m = some (more, u) → Trace next s (log ++ more) u

namespace Trace

/-- The log and the end of a run by given moves, if they can all be made. -/
def follow (next : σ → μ → Option (List ι × σ)) (s : σ) : List μ → Option (List ι × σ)
  | [] => some ([], s)
  | m :: ms => (next s m).bind fun (more, t) ↦
    (follow next t ms).map fun (log, u) ↦ (more ++ log, u)

theorem trans (h : Trace next s log t) (h' : Trace next t more u) :
    Trace next s (log ++ more) u := by
  induction h' with
  | refl => simpa using h
  | step m _ hs ih => simpa only [List.append_assoc] using Trace.step m ih hs

theorem of_follow {ms : List μ} (h : follow next s ms = some (log, t)) : Trace next s log t := by
  induction ms generalizing s log with
  | nil =>
    cases h
    exact .refl
  | cons m ms ih =>
    obtain ⟨⟨more, u⟩, hu, h⟩ := Option.bind_eq_some_iff.1 h
    obtain ⟨⟨rest, v⟩, hv, h⟩ := Option.map_eq_some_iff.1 h
    cases h
    exact (Trace.step m .refl hu).trans (ih hv)

theorem of_isSome {ms : List μ} (h : (follow next s ms).isSome = true) :
    Trace next s ((follow next s ms).get h).1 ((follow next s ms).get h).2 :=
  of_follow (Option.some_get h).symm

end Trace

end QueuedFiles
