import CHeader.Text.Utf8
import Mathlib.Data.List.TakeWhile

/-!
# The bytes of a character

A step takes a sequence of bytes that starts with a byte saying how many there are. The sequences that
a step takes whole are the ones that encode a character, and each is taken as that character.
-/
namespace CHeader.Text

variable {first second third fourth : UInt8} {tail rest : Bytes} {c : Char} {s : Text}

/-! ## Sequences -/

theorem isContinuation_iff {b : UInt8} :
    isContinuation b = true ↔ 0x80 ≤ b.toNat ∧ b.toNat < 0xC0 := by
  simp [isContinuation, UInt8.lt_iff_toNat_lt, UInt8.le_iff_toNat_le]

theorem isSecond_iff : isSecond first second = true ↔
    (0x80 ≤ second.toNat ∧ second.toNat < 0xC0) ∧
    (first.toNat = 0xE0 → 0xA0 ≤ second.toNat) ∧ (first.toNat = 0xED → second.toNat < 0xA0) ∧
    (first.toNat = 0xF0 → 0x90 ≤ second.toNat) ∧ (first.toNat = 0xF4 → second.toNat < 0x90) := by
  simp only [isSecond, Bool.and_eq_true, Bool.or_eq_true, isContinuation_iff, bne_iff_ne, ne_eq,
    decide_eq_true_eq, UInt8.lt_iff_toNat_lt, UInt8.le_iff_toNat_le, ← UInt8.toNat_inj,
    ← imp_iff_not_or, and_assoc]
  rfl

theorem sequenceLength_eq_iff {later : Nat} : sequenceLength first = later + 1 ↔
    later = 0 ∧ first.toNat < 0x80 ∨ later = 1 ∧ 0xC2 ≤ first.toNat ∧ first.toNat < 0xE0 ∨
      later = 2 ∧ 0xE0 ≤ first.toNat ∧ first.toNat < 0xF0 ∨
      later = 3 ∧ 0xF0 ≤ first.toNat ∧ first.toNat < 0xF5 := by
  have bounds : sequenceLength first =
      if first.toNat < 0x80 then 1 else if first.toNat < 0xC2 then 0
      else if first.toNat < 0xE0 then 2 else if first.toNat < 0xF0 then 3
      else if first.toNat < 0xF5 then 4 else 0 := by
    simp only [sequenceLength, UInt8.lt_iff_toNat_lt]
    rfl
  rw [bounds]
  clear bounds
  repeat' split
  all_goals omega

theorem sequenceValue_one : sequenceValue ([] : Bytes).length.succ first [] = first.toNat % 128 :=
  rfl

theorem sequenceValue_two : sequenceValue [second].length.succ first [second] =
    first.toNat % 32 * 64 + second.toNat % 64 := rfl

theorem sequenceValue_three : sequenceValue [second, third].length.succ first [second, third] =
    (first.toNat % 16 * 64 + second.toNat % 64) * 64 + third.toNat % 64 := rfl

theorem sequenceValue_four :
    sequenceValue [second, third, fourth].length.succ first [second, third, fourth] =
      ((first.toNat % 8 * 64 + second.toNat % 64) * 64 + third.toNat % 64) * 64 +
        fourth.toNat % 64 := rfl

/-- The bytes that may stand behind a first byte. -/
def Fits (first : UInt8) : Bytes → Prop
  | [] => True
  | second :: later => isSecond first second = true ∧ ∀ b ∈ later, isContinuation b = true

/-- A first byte with as many fitting bytes as it asks for. -/
structure IsSequence (first : UInt8) (tail : Bytes) : Prop where
  whole : sequenceLength first = tail.length + 1
  fits : Fits first tail

/-- The bytes of a code point: its bits, six to a byte but for the first one. -/
inductive Encodes (value : Nat) : Bytes → Prop
  | one {first : UInt8} (range : value < 0x80) (lead : first.toNat = value) : Encodes value [first]
  | two {first second : UInt8} (range : 0x80 ≤ value ∧ value < 0x800)
      (lead : first.toNat = 0xC0 + value / 64) (last : second.toNat = 0x80 + value % 64) :
      Encodes value [first, second]
  | three {first second third : UInt8}
      (range : 0x800 ≤ value ∧ value < 0x10000 ∧ ¬(0xD800 ≤ value ∧ value < 0xE000))
      (lead : first.toNat = 0xE0 + value / 64 / 64) (middle : second.toNat = 0x80 + value / 64 % 64)
      (last : third.toNat = 0x80 + value % 64) : Encodes value [first, second, third]
  | four {first second third fourth : UInt8} (range : 0x10000 ≤ value ∧ value < 0x110000)
      (lead : first.toNat = 0xF0 + value / 64 / 64 / 64)
      (upper : second.toNat = 0x80 + value / 64 / 64 % 64)
      (lower : third.toNat = 0x80 + value / 64 % 64)
      (last : fourth.toNat = 0x80 + value % 64) : Encodes value [first, second, third, fourth]

theorem encodes_utf8EncodeChar (c : Char) : Encodes c.toNat (String.utf8EncodeChar c) := by
  have whole : c.toNat < 0xD800 ∨ 0xDFFF < c.toNat ∧ c.toNat < 0x110000 := c.valid
  have value : c.val.toNat = c.toNat := rfl
  have byte (n : Nat) (small : n < 256) : (UInt8.ofNat n).toNat = n := by
    rw [UInt8.toNat_ofNat']
    omega
  unfold String.utf8EncodeChar
  simp only [value]
  split
  · refine .one (by omega) ?_
    rw [byte _ (by omega)]
  split
  · refine .two (by omega) ?_ ?_ <;> rw [byte _ (by omega)] <;> omega
  split
  · refine .three (by omega) ?_ ?_ ?_ <;> rw [byte _ (by omega)] <;> omega
  · refine .four (by omega) ?_ ?_ ?_ ?_ <;> rw [byte _ (by omega)] <;> omega

theorem Encodes.unique {value : Nat} {bytes other : Bytes} (one : Encodes value bytes)
    (same : Encodes value other) : bytes = other := by
  cases one <;> cases same <;> first
    | omega
    | simp only [List.cons.injEq, and_true, ← UInt8.toNat_inj]; omega

theorem Encodes.isSequence {value : Nat} (encodes : Encodes value (first :: tail)) :
    IsSequence first tail ∧ sequenceValue tail.length.succ first tail = value := by
  cases encodes with
  | one range lead =>
    refine ⟨⟨sequenceLength_eq_iff.mpr (.inl ⟨rfl, by omega⟩), trivial⟩, ?_⟩
    rw [sequenceValue_one]
    omega
  | two range lead last =>
    refine ⟨⟨sequenceLength_eq_iff.mpr (.inr (.inl ⟨rfl, by omega⟩)), isSecond_iff.mpr ?_,
      by simp⟩, ?_⟩
    · omega
    · rw [sequenceValue_two]
      omega
  | three range lead middle last =>
    refine ⟨⟨sequenceLength_eq_iff.mpr (.inr (.inr (.inl ⟨rfl, by omega⟩))),
      isSecond_iff.mpr ?_, ?_⟩, ?_⟩
    · omega
    · rw [List.forall_mem_singleton, isContinuation_iff]
      omega
    · rw [sequenceValue_three]
      omega
  | four range lead upper lower last =>
    refine ⟨⟨sequenceLength_eq_iff.mpr (.inr (.inr (.inr ⟨rfl, by omega⟩))),
      isSecond_iff.mpr ?_, ?_⟩, ?_⟩
    · omega
    · rw [List.forall_mem_cons, List.forall_mem_singleton, isContinuation_iff, isContinuation_iff]
      omega
    · rw [sequenceValue_four]
      omega

theorem IsSequence.encodes (sequence : IsSequence first tail) :
    Encodes (sequenceValue tail.length.succ first tail) (first :: tail) := by
  obtain ⟨whole, fits⟩ := sequence
  rw [sequenceLength_eq_iff] at whole
  match tail, fits with
  | [], _ =>
    simp only [List.length_nil] at whole
    rw [sequenceValue_one]
    refine .one ?_ ?_ <;> omega
  | [second], fits =>
    simp only [List.length_cons, List.length_nil] at whole
    have fit := isSecond_iff.mp fits.1
    rw [sequenceValue_two]
    refine .two ?_ ?_ ?_ <;> omega
  | [second, third], fits =>
    simp only [List.length_cons, List.length_nil] at whole
    have fit := isSecond_iff.mp fits.1
    have follows := isContinuation_iff.mp (fits.2 third (by simp))
    rw [sequenceValue_three]
    refine .three ?_ ?_ ?_ ?_ <;> omega
  | [second, third, fourth], fits =>
    simp only [List.length_cons, List.length_nil] at whole
    have fit := isSecond_iff.mp fits.1
    have follows := isContinuation_iff.mp (fits.2 third (by simp))
    have ends := isContinuation_iff.mp (fits.2 fourth (by simp))
    rw [sequenceValue_four]
    refine .four ?_ ?_ ?_ ?_ ?_ <;> omega
  | _ :: _ :: _ :: _ :: _, _ =>
    simp only [List.length_cons] at whole
    omega

/-! ## One step -/

theorem Fits.of_append {front back : Bytes} (fits : Fits first (front ++ back)) :
    Fits first front := by
  cases front with
  | nil => trivial
  | cons second later => exact ⟨fits.1, fun b member => fits.2 b (List.mem_append_left _ member)⟩

theorem Fits.of_append_cons {front back : Bytes} {next : UInt8}
    (fits : Fits first (front ++ next :: back)) : Fits first (front ++ [next]) := by
  have split : front ++ next :: back = (front ++ [next]) ++ back := by simp
  rw [split] at fits
  exact fits.of_append

/-- As many bytes as wanted are taken, unless one of them does not fit. -/
theorem exists_fitting (first : UInt8) (wanted : Nat) (rest : Bytes) :
    ∃ front back, rest = front ++ back ∧ fitting first wanted rest = front.length ∧
      Fits first front ∧ front.length ≤ wanted ∧
      ∀ next after, back = next :: after → front.length < wanted → ¬Fits first (front ++ [next]) := by
  match wanted, rest with
  | 0, rest => exact ⟨[], rest, rfl, rfl, trivial, Nat.le_refl 0, by simp⟩
  | wanted + 1, [] => exact ⟨[], [], rfl, rfl, trivial, Nat.zero_le _, by simp⟩
  | wanted + 1, second :: later =>
    by_cases fits : isSecond first second = true
    · have run := List.takeWhile_append_dropWhile (p := isContinuation) (l := later.take wanted)
      refine ⟨second :: (later.take wanted).takeWhile isContinuation,
        (later.take wanted).dropWhile isContinuation ++ later.drop wanted, ?_, ?_,
        ⟨fits, fun b member => List.mem_takeWhile_imp member⟩, ?_, ?_⟩
      · rw [List.cons_append, ← List.append_assoc, run, List.take_append_drop]
      · rw [fitting, if_pos fits, List.length_cons, Nat.add_comm]
      · have short := (List.takeWhile_prefix isContinuation (l := later.take wanted)).length_le
        have bound := List.length_take_le wanted later
        rw [List.length_cons]
        omega
      · rintro next after ahead less ⟨-, follows⟩
        have stops := List.head?_dropWhile_not isContinuation (later.take wanted)
        cases left : (later.take wanted).dropWhile isContinuation with
        | nil =>
          -- all the bytes that are left were taken
          rw [left, List.append_nil] at run
          rw [run, List.length_cons, List.length_take] at less
          rw [left, List.nil_append, List.drop_eq_nil_of_le (by omega)] at ahead
          cases ahead
        | cons stray others =>
          rw [left] at stops ahead
          cases ahead
          have refused : isContinuation next = false := stops
          rw [follows next (List.mem_append_right _ List.mem_cons_self)] at refused
          cases refused
    · refine ⟨[], second :: later, rfl, ?_, trivial, Nat.zero_le _, ?_⟩
      · rw [fitting, if_neg fits]
        rfl
      · rintro next after ⟨⟩ - stray
        exact fits stray.1

theorem fitting_append {front back : Bytes} {wanted : Nat} (fits : Fits first front)
    (short : front.length ≤ wanted)
    (stops : ∀ next after, back = next :: after → front.length < wanted →
      ¬Fits first (front ++ [next])) :
    fitting first wanted (front ++ back) = front.length := by
  obtain ⟨taken, left, same, count, fit, bound, ends⟩ := exists_fitting first wanted (front ++ back)
  rw [count]
  -- neither run of bytes goes on behind the end of the other
  rcases List.append_eq_append_iff.mp same with ⟨more, rfl, rfl⟩ | ⟨more, rfl, rfl⟩
  · cases more with
    | nil => rw [List.append_nil]
    | cons next more =>
      rw [List.length_append, List.length_cons] at bound
      exact absurd fit.of_append_cons (stops next _ rfl (by omega))
  · cases more with
    | nil => rw [List.append_nil]
    | cons next more =>
      rw [List.length_append, List.length_cons] at short
      exact absurd fits.of_append_cons (ends next _ rfl (by omega))

/-- The character that a first byte and the bytes behind it stand for. -/
def charOf (first : UInt8) (tail : Bytes) : Char :=
  Char.ofNat (sequenceValue tail.length.succ first tail)

theorem IsSequence.utf8EncodeChar (sequence : IsSequence first tail) :
    String.utf8EncodeChar (charOf first tail) = first :: tail := by
  have encodes := sequence.encodes
  have valid : (sequenceValue tail.length.succ first tail).isValidChar := by
    cases encodes <;> simp only [Nat.isValidChar] <;> omega
  have number : (charOf first tail).toNat = sequenceValue tail.length.succ first tail := by
    rw [charOf, Char.ofNat, dif_pos valid]
    rfl
  have written := encodes_utf8EncodeChar (charOf first tail)
  rw [number] at written
  exact written.unique encodes

theorem isSequence_of_encoded (encoded : String.utf8EncodeChar c = first :: tail) :
    IsSequence first tail ∧ charOf first tail = c := by
  have written := encodes_utf8EncodeChar c
  rw [encoded] at written
  obtain ⟨sequence, value⟩ := written.isSequence
  exact ⟨sequence, by rw [charOf, value, Char.ofNat_toNat]⟩

theorem IsSequence.utf8Step (sequence : IsSequence first tail) (rest : Bytes) :
    utf8Step first (tail ++ rest) = .char (charOf first tail) tail.length.succ := by
  have value : sequenceValue tail.length.succ first (tail ++ rest) =
      sequenceValue tail.length.succ first tail := by
    simp only [sequenceValue, Nat.succ_sub_one, List.take_left, List.take_length]
  have taken : fitting first tail.length (tail ++ rest) = tail.length :=
    fitting_append sequence.fits (Nat.le_refl _) fun _ _ _ less => absurd less (Nat.lt_irrefl _)
  rw [Text.utf8Step, sequence.whole]
  simp only [Nat.add_one_sub_one, taken, value]
  rfl

end CHeader.Text
