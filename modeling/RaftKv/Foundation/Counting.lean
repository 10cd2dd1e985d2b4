import RaftKv.Foundation.Word

/-! # Counting loops over 64-bit words

`for (uint64_t i = first; i <= last; ++i)`. The loop runs through the numbers from `first`
to `last`, unless `last` is the greatest word: then no word is beyond it, and the loop does
not end.
-/

variable {σ : Type}

/-- The loop, with the number of tests it may make; none when it has not ended by then. -/
def countTo (body : σ → Nat → σ) (last : Nat) : Nat → Nat → σ → Option σ
  | 0, _, _ => none
  | fuel + 1, i, s =>
      if i ≤ last then countTo body last fuel (wrap64 (i + 1)) (body s i) else some s

/-- Below the greatest word one test for each number and a last one are enough. -/
theorem countTo_eq {body : σ → Nat → σ} {last i fuel : Nat} (hlast : last + 1 < 2 ^ 64)
    (hfuel : last + 1 - i < fuel) (s : σ) :
    countTo body last fuel i s = some ((List.range' i (last + 1 - i)).foldl body s) := by
  induction fuel generalizing i s with
  | zero => omega
  | succ fuel ih =>
      rw [countTo]
      split
      next hi =>
        rw [wrap64_of_lt (by omega), ih (by omega),
          show last + 1 - i = last + 1 - (i + 1) + 1 by omega, List.range'_succ, List.foldl_cons]
      next hi => rw [show last + 1 - i = 0 by omega, List.range'_zero, List.foldl_nil]

/-- Up to the greatest word it is always another turn. -/
theorem countTo_endless (body : σ → Nat → σ) {last i : Nat} (hlast : 2 ^ 64 ≤ last + 1)
    (hi : i < 2 ^ 64) (fuel : Nat) (s : σ) : countTo body last fuel i s = none := by
  induction fuel generalizing i s with
  | zero => rfl
  | succ fuel ih =>
      rw [countTo, if_pos (by omega)]
      exact ih (wrap64_lt _) _
