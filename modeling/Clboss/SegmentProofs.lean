import Mathlib.Data.List.Basic

/-! # Segments — reading and writing all of it, in pieces

    A descriptor delivers its bytes in pieces and takes bytes in portions; where
    the pieces end is up to the system.  `readAll` and `writeAll` loop until
    everything asked for is there or an end or an error is reported, and what
    comes of it does not depend on where the pieces ended: it is a matter of the
    bytes alone (`readAll_of_le`, `readAll_of_lt`, `writeAll_sent`).

    An empty piece, or an empty portion, is a call that was interrupted and is
    made again.  Reading NO bytes is different: `read` then reports zero bytes,
    which is taken for the end. -/

namespace Segments

variable {β : Type}

/-- Put what was read in front of what is read after it. -/
def prepend (p : List β) (r : Option (List β) × List (List β)) : Option (List β) × List (List β) :=
  (r.1.map (p ++ ·), r.2)

/-- Read `n` bytes; what is left is returned with them. -/
def readAll (n : ℕ) : List (List β) → Option (List β) × List (List β)
  | []      => (none, [])
  | p :: ps =>
      if n = 0 then (none, p :: ps)
      else if p.length < n then prepend p (readAll (n - p.length) ps)
      else (some (p.take n), p.drop n :: ps)

/-- Write all bytes; the portions that are taken are given.  Without one, the call fails. -/
def writeAll : List ℕ → List β → Bool × List β × List ℕ
  | [], _           => (false, [], [])
  | k :: ks, bytes  =>
      if bytes.length ≤ k then (true, bytes, ks)
      else
        let r := writeAll ks (bytes.drop k)
        (r.1, bytes.take k ++ r.2.1, r.2.2)

/-- Reading nothing fails, and leaves everything. -/
theorem readAll_zero (ps : List (List β)) : readAll 0 ps = (none, ps) := by
  cases ps with
  | nil => rfl
  | cons p ps => simp [readAll]

/-- **SPEC**: where the bytes are there, they are read and the rest is left. -/
theorem readAll_of_le {n : ℕ} {ps : List (List β)} (hn : 0 < n) (h : n ≤ ps.flatten.length) :
    (readAll n ps).1 = some (ps.flatten.take n)
      ∧ (readAll n ps).2.flatten = ps.flatten.drop n := by
  induction ps generalizing n with
  | nil =>
      rw [List.flatten_nil, List.length_nil] at h
      omega
  | cons p ps ih =>
      rw [List.flatten_cons, List.length_append] at h
      unfold readAll
      rw [if_neg (Nat.pos_iff_ne_zero.mp hn)]
      by_cases hp : p.length < n
      · rw [if_pos hp]
        obtain ⟨hread, hleft⟩ := ih (n := n - p.length) (by omega) (by omega)
        have htake : p.take n = p := List.take_of_length_le (Nat.le_of_lt hp)
        have hdrop : p.drop n = [] := List.drop_of_length_le (Nat.le_of_lt hp)
        refine ⟨?_, ?_⟩
        · show (readAll (n - p.length) ps).1.map (p ++ ·) = _
          rw [hread, List.flatten_cons, List.take_append, htake]
          rfl
        · show (readAll (n - p.length) ps).2.flatten = _
          rw [hleft, List.flatten_cons, List.drop_append, hdrop, List.nil_append]
      · rw [if_neg hp]
        refine ⟨?_, ?_⟩
        · rw [List.flatten_cons, List.take_append_of_le_length (by omega)]
        · rw [List.flatten_cons, List.flatten_cons, List.drop_append_of_le_length (by omega)]

/-- **SPEC**: where they are not, reading fails and has used up what was there. -/
theorem readAll_of_lt {n : ℕ} {ps : List (List β)} (h : ps.flatten.length < n) :
    readAll n ps = (none, []) := by
  induction ps generalizing n with
  | nil => rfl
  | cons p ps ih =>
      rw [List.flatten_cons, List.length_append] at h
      unfold readAll
      rw [if_neg (by omega), if_pos (by omega), ih (by omega)]
      rfl

/-- What was read is the beginning of what is there. -/
theorem readAll_eq_some {n : ℕ} {ps : List (List β)} {bytes : List β}
    (h : (readAll n ps).1 = some bytes) :
    0 < n ∧ bytes.length = n ∧ ps.flatten = bytes ++ (readAll n ps).2.flatten := by
  have hn : 0 < n := by
    by_contra h0
    rw [Nat.eq_zero_of_not_pos h0, readAll_zero] at h
    cases h
  have hle : n ≤ ps.flatten.length := by
    by_contra hlt
    rw [readAll_of_lt (Nat.lt_of_not_le hlt)] at h
    cases h
  obtain ⟨hread, hleft⟩ := readAll_of_le hn hle
  rw [hread] at h
  cases h
  refine ⟨hn, List.length_take_of_le hle, ?_⟩
  rw [hleft, List.take_append_drop]

/-- And the beginning of what is there is read. -/
theorem readAll_append {bytes : List β} {ps : List (List β)} {rest : List β} (hne : bytes ≠ [])
    (h : ps.flatten = bytes ++ rest) :
    (readAll bytes.length ps).1 = some bytes ∧ (readAll bytes.length ps).2.flatten = rest := by
  obtain ⟨hread, hleft⟩ := readAll_of_le (List.length_pos_iff.mpr hne)
    (by rw [h, List.length_append]; omega : bytes.length ≤ ps.flatten.length)
  rw [h, List.take_left] at hread
  rw [h, List.drop_left] at hleft
  exact ⟨hread, hleft⟩

/-- **SPEC**: what is sent is a beginning, and all of it if writing succeeds. -/
theorem writeAll_sent (ks : List ℕ) (bytes : List β) :
    (writeAll ks bytes).2.1 <+: bytes
      ∧ ((writeAll ks bytes).1 = true → (writeAll ks bytes).2.1 = bytes) := by
  induction ks generalizing bytes with
  | nil => exact ⟨List.nil_prefix, nofun⟩
  | cons k ks ih =>
      unfold writeAll
      split
      · exact ⟨List.prefix_refl bytes, fun _ => rfl⟩
      · obtain ⟨hsent, hall⟩ := ih (bytes.drop k)
        refine ⟨?_, fun hok => ?_⟩
        · obtain ⟨rest, hrest⟩ := hsent
          refine ⟨rest, ?_⟩
          rw [List.append_assoc, hrest, List.take_append_drop]
        · show bytes.take k ++ (writeAll ks (bytes.drop k)).2.1 = bytes
          rw [hall hok, List.take_append_drop]

end Segments
