import Autobase.ConsoleRequestLog

/-! # The response that is captured

Every call goes on to the writer of the server. Before that the body is recorded up to the limit;
the overflow is noted only by the write that is cut, not by one that finds the record full. -/
namespace ConsoleResponseCapture

open ConsoleRequestLog TransitionRuns

/-! ## The writer of the middleware -/

section Client

variable {σ ρ : Type*} (write : σ → List UInt8 → σ × ρ)

/-- The recorder with the embedded writer of the server, whose state and answers are its own. -/
structure Captured (σ : Type*) where
  recorder : ResponseWriter
  server : σ

def capturedWrite (r : Captured σ) (b : List UInt8) : Captured σ × ρ :=
  (⟨ConsoleRequestLog.write r.recorder b, (write r.server b).1⟩, (write r.server b).2)

def served (s : σ) (writes : List (List UInt8)) : σ := run (fun s b => (write s b).1) s writes

def answers (s : σ) (writes : List (List UInt8)) : List ρ :=
  trace (fun s b => (write s b).1) (fun s b => [(write s b).2]) s writes

/-- The first bytes are recorded, the overflow is noted when there are more, and the server and
the handler see the calls as they would without the middleware. -/
structure Faithful (s : σ) (writes : List (List UInt8)) : Prop where
  body : (served (capturedWrite write) ⟨⟨[], false⟩, s⟩ writes).recorder.body =
    writes.flatten.take responseWriterBodyLimit
  overflow : (served (capturedWrite write) ⟨⟨[], false⟩, s⟩ writes).recorder.bodyOverflow = true ↔
    responseWriterBodyLimit < writes.flatten.length
  client : (served (capturedWrite write) ⟨⟨[], false⟩, s⟩ writes).server = served write s writes
  answered : answers (capturedWrite write) ⟨⟨[], false⟩, s⟩ writes = answers write s writes

theorem served_captured (r : ResponseWriter) (s : σ) (writes : List (List UInt8)) :
    served (capturedWrite write) ⟨r, s⟩ writes =
      ⟨run ConsoleRequestLog.write r writes, served write s writes⟩ := by
  induction writes generalizing r s with
  | nil => rfl
  | cons b writes ih => exact ih _ _

theorem answers_captured (r : ResponseWriter) (s : σ) (writes : List (List UInt8)) :
    answers (capturedWrite write) ⟨r, s⟩ writes = answers write s writes := by
  induction writes generalizing r s with
  | nil => rfl
  | cons b writes ih => exact congrArg ((write s b).2 :: ·) (ih _ _)

end Client

/-! ## The overflow -/

/-- After some of the writes the record is exactly full. -/
def FillsExactly (writes : List (List UInt8)) : Prop :=
  ∃ n, (writes.take n).flatten.length = responseWriterBodyLimit

theorem write_overflow {r : ResponseWriter} {b : List UInt8} :
    (write r b).bodyOverflow = true ↔ r.bodyOverflow = true ∨
      (r.body.length < responseWriterBodyLimit ∧
        responseWriterBodyLimit < r.body.length + b.length) := by
  simp only [write]
  split
  · rename_i hlt
    split
    · rename_i hcut
      have hmore : responseWriterBodyLimit < r.body.length + b.length := by omega
      simp [hlt, hmore]
    · rename_i hfits
      have hall : ¬ responseWriterBodyLimit < r.body.length + b.length := by omega
      simp [hall]
  · rename_i hfull
    simp [hfull]

theorem neverFull_cons (recorded limit : ℕ) (b : List UInt8) (writes : List (List UInt8)) :
    (∀ n, recorded + ((b :: writes).take n).flatten.length ≠ limit) ↔
      recorded ≠ limit ∧ ∀ n, recorded + b.length + (writes.take n).flatten.length ≠ limit := by
  constructor
  · intro h
    refine ⟨by simpa using h 0, fun n => ?_⟩
    have hn := h (n + 1)
    rwa [List.take_succ_cons, List.flatten_cons, List.length_append, ← Nat.add_assoc] at hn
  · rintro ⟨h0, hrest⟩ n
    cases n with
    | zero => simpa using h0
    | succ n =>
      rw [List.take_succ_cons, List.flatten_cons, List.length_append, ← Nat.add_assoc]
      exact hrest n

/-- The induction is on the writes that are left, with the bytes recorded so far. -/
theorem run_overflow (writes : List (List UInt8)) (r : ResponseWriter)
    (h : r.body.length ≤ responseWriterBodyLimit) :
    (run write r writes).bodyOverflow = true ↔ r.bodyOverflow = true ∨
      (responseWriterBodyLimit < r.body.length + writes.flatten.length ∧
        ∀ n, r.body.length + (writes.take n).flatten.length ≠ responseWriterBodyLimit) := by
  induction writes generalizing r with
  | nil =>
    simp only [run_nil, List.flatten_nil, List.length_nil, Nat.add_zero]
    constructor
    · exact Or.inl
    · rintro (hflag | ⟨hmore, -⟩)
      · exact hflag
      · omega
  | cons b writes ih =>
    have hbody := write_body (b := b) h
    have hlength : (write r b).body.length =
        min responseWriterBodyLimit (r.body.length + b.length) := by
      rw [hbody, List.length_take, List.length_append]
    rw [run_cons, ih _ (by omega), write_overflow, or_assoc, neverFull_cons]
    apply or_congr_right
    rw [hlength, List.flatten_cons, List.length_append]
    by_cases hcut : responseWriterBodyLimit < r.body.length + b.length
    · -- the write is cut or finds the record full, and from then on the record is full
      have hfull : ∀ n, r.body.length + b.length + (writes.take n).flatten.length ≠
          responseWriterBodyLimit := fun n => by omega
      rw [Nat.min_eq_left (Nat.le_of_lt hcut)]
      constructor
      · rintro (⟨hlt, -⟩ | ⟨-, hnever⟩)
        · exact ⟨by omega, by omega, hfull⟩
        · exact absurd rfl (hnever 0)
      · rintro ⟨-, hne, -⟩
        exact Or.inl ⟨by omega, hcut⟩
    · rw [Nat.min_eq_right (Nat.le_of_not_lt hcut)]
      constructor
      · rintro (⟨-, hlt⟩ | ⟨hmore, hnever⟩)
        · exact absurd hlt hcut
        · have h0 := hnever 0
          simp only [List.take_zero, List.flatten_nil, List.length_nil, Nat.add_zero] at h0
          exact ⟨by omega, by omega, hnever⟩
      · rintro ⟨hmore, -, hnever⟩
        exact Or.inr ⟨by omega, hnever⟩

theorem recorded_overflow (writes : List (List UInt8)) :
    (recorded writes).bodyOverflow = true ↔
      responseWriterBodyLimit < writes.flatten.length ∧ ¬ FillsExactly writes := by
  rw [recorded, run_overflow writes ⟨[], false⟩ (Nat.zero_le _)]
  simp [FillsExactly]

/-- The capture is faithful exactly when the record is not filled to the last byte before more
is written. -/
theorem capture_faithful_iff {σ ρ : Type*} (write : σ → List UInt8 → σ × ρ) (s : σ)
    (writes : List (List UInt8)) :
    Faithful write s writes ↔
      (FillsExactly writes → writes.flatten.length ≤ responseWriterBodyLimit) := by
  have hrecorder : (served (capturedWrite write) ⟨⟨[], false⟩, s⟩ writes).recorder =
      recorded writes := by
    rw [served_captured]
    rfl
  constructor
  · intro h hfills
    by_contra hmore
    have hoverflow := h.overflow.mpr (by omega)
    rw [hrecorder, recorded_overflow] at hoverflow
    exact hoverflow.2 hfills
  · intro h
    refine ⟨?_, ?_, ?_, answers_captured write _ s writes⟩
    · rw [hrecorder, recorded_body]
    · rw [hrecorder, recorded_overflow]
      constructor
      · exact fun hoverflow => hoverflow.1
      · intro hmore
        refine ⟨hmore, ?_⟩
        intro hfills
        have hle := h hfills
        omega
    · rw [served_captured]

/-- A server that takes every byte. -/
def takesAll (received b : List UInt8) : List UInt8 × ℕ := (received ++ b, b.length)

/-- The first write fills the record and the second one is not noted. -/
theorem full_record_unnoted :
    ¬ Faithful takesAll [] [List.replicate responseWriterBodyLimit 0, [0]] := by
  intro h
  have hoverflow := h.overflow.mpr (by simp)
  rw [served_captured, run_overflow _ _ (Nat.zero_le _)] at hoverflow
  rcases hoverflow with hflag | ⟨-, hnever⟩
  · cases hflag
  · exact hnever 1 (by simp)

end ConsoleResponseCapture
