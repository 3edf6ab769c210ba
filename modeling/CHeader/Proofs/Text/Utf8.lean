import CHeader.Proofs.Text.Sequence

/-!
# Texts and their bytes

Bytes are read as a text if they are the bytes of that text. All others are refused for the first
sequence of them that no character has, which is said to be as long as the part of it that could have
begun a character. A text without carriage returns has line feeds for line breaks already.
-/
namespace CHeader.Text

variable {first : UInt8} {tail rest : Bytes} {c : Char} {s : Text}

/-! ## Faulty sequences -/

/-- The bytes begin a character, or are one. -/
def Begins (bytes : Bytes) : Prop := ∃ c, bytes <+: String.utf8EncodeChar c

/-- The bytes begin a character that has more bytes. -/
def Unfinished (bytes : Bytes) : Prop :=
  bytes ≠ [] ∧ ∃ c more, more ≠ [] ∧ String.utf8EncodeChar c = bytes ++ more

/-- What is faulty about bytes, and how many of them are: as many as could have begun a character. -/
inductive Faulty : Bytes → Utf8Fault → Bytes → Prop
  | invalidStart {first : UInt8} {rest : Bytes} (stray : ¬Begins [first]) :
      Faulty (first :: rest) .invalidStart [first]
  | invalidContinuation {begun rest : Bytes} {next : UInt8} (unfinished : Unfinished begun)
      (stray : ¬Begins (begun ++ [next])) :
      Faulty (begun ++ next :: rest) .invalidContinuation begun
  | unexpectedEnd {begun : Bytes} (unfinished : Unfinished begun) :
      Faulty begun .unexpectedEnd begun

theorem begins_iff : Begins (first :: tail) ↔ ∃ more, IsSequence first (tail ++ more) := by
  constructor
  · rintro ⟨c, more, encoded⟩
    exact ⟨more, (isSequence_of_encoded encoded.symm).1⟩
  · rintro ⟨more, sequence⟩
    exact ⟨charOf first (tail ++ more), more, sequence.utf8EncodeChar.symm⟩

theorem unfinished_iff :
    Unfinished (first :: tail) ↔ ∃ more, more ≠ [] ∧ IsSequence first (tail ++ more) := by
  constructor
  · rintro ⟨-, c, more, filled, encoded⟩
    exact ⟨more, filled, (isSequence_of_encoded encoded).1⟩
  · rintro ⟨more, filled, sequence⟩
    exact ⟨List.cons_ne_nil _ _, _, more, filled, sequence.utf8EncodeChar⟩

theorem exists_isSecond (first : UInt8) : ∃ second, isSecond first second = true := by
  by_cases three : first.toNat = 0xE0
  · exact ⟨0xA0, isSecond_iff.mpr ⟨by decide, fun _ => by decide, by omega, by omega, by omega⟩⟩
  by_cases four : first.toNat = 0xF0
  · exact ⟨0x90, isSecond_iff.mpr ⟨by decide, by omega, by omega, fun _ => by decide, by omega⟩⟩
  · exact ⟨0x80, isSecond_iff.mpr
      ⟨by decide, by omega, fun _ => by decide, by omega, fun _ => by decide⟩⟩

/-- Bytes that fit can be completed to a character. -/
theorem Fits.completed (fits : Fits first tail) (missing : Nat)
    (whole : sequenceLength first = tail.length + missing + 1) :
    ∃ more, more.length = missing ∧ IsSequence first (tail ++ more) := by
  have continues : ∀ b ∈ List.replicate missing (0x80 : UInt8), isContinuation b = true := by
    intro b member
    rw [List.eq_of_mem_replicate member]
    decide
  cases tail with
  | cons second later =>
    refine ⟨List.replicate missing 0x80, List.length_replicate, ?_, fits.1, ?_⟩
    · rw [List.length_append, List.length_replicate, whole]
    · exact List.forall_mem_append.mpr ⟨fits.2, continues⟩
  | nil =>
    cases missing with
    | zero => exact ⟨[], rfl, by simpa using whole, trivial⟩
    | succ missing =>
      obtain ⟨second, fit⟩ := exists_isSecond first
      refine ⟨second :: List.replicate missing 0x80, by simp, by simp [whole], fit, ?_⟩
      intro b member
      exact continues b (List.mem_cons_of_mem _ member)

theorem Fits.begins (fits : Fits first tail) (short : tail.length < sequenceLength first) :
    Begins (first :: tail) := by
  obtain ⟨more, -, sequence⟩ :=
    fits.completed (sequenceLength first - tail.length - 1) (by omega)
  exact begins_iff.mpr ⟨more, sequence⟩

theorem Unfinished.exists_cons {begun : Bytes} (unfinished : Unfinished begun) :
    ∃ first tail, begun = first :: tail ∧ tail.length + 1 < sequenceLength first ∧
      Fits first tail := by
  obtain ⟨first, tail, rfl⟩ := List.exists_cons_of_ne_nil unfinished.1
  obtain ⟨more, filled, sequence⟩ := unfinished_iff.mp unfinished
  have missing := List.length_pos_iff.mpr filled
  refine ⟨first, tail, rfl, ?_, sequence.fits.of_append⟩
  rw [sequence.whole, List.length_append]
  omega

theorem Faulty.utf8Step {faulty : Bytes} {kind : Utf8Fault}
    (fault : Faulty (first :: rest) kind faulty) :
    utf8Step first rest = .fault kind faulty.length := by
  generalize whole : first :: rest = bytes at fault
  cases fault with
  | invalidStart stray =>
    cases whole
    have zero : sequenceLength first = 0 := by
      by_contra positive
      have empty : Fits first [] := trivial
      exact stray (empty.begins (Nat.pos_of_ne_zero positive))
    rw [Text.utf8Step, zero]
    rfl
  | @invalidContinuation _ after next unfinished stray =>
    obtain ⟨_, front, rfl, short, fits⟩ := unfinished.exists_cons
    cases whole
    have taken : fitting first (sequenceLength first - 1) (front ++ next :: after) =
        front.length := by
      refine fitting_append fits (by omega) ?_
      rintro _ _ ⟨⟩ less more
      refine stray (more.begins ?_)
      rw [List.length_append, List.length_singleton]
      omega
    simp only [Text.utf8Step, List.append_eq, taken, List.length_append, List.length_cons]
    rw [if_neg (by omega), if_neg (by omega), if_neg (by omega)]
  | unexpectedEnd unfinished =>
    obtain ⟨_, _, rfl, short, fits⟩ := unfinished.exists_cons
    cases whole
    have taken : fitting first (sequenceLength first - 1) (rest ++ []) = rest.length :=
      fitting_append fits (by omega) (by simp)
    rw [List.append_nil] at taken
    simp only [Text.utf8Step, taken, ↓reduceIte]
    rw [if_neg (by omega), if_neg (by omega)]
    rfl

/-! ## Whole texts -/

/-- Behind the characters of a text stands the first faulty sequence. -/
def FirstFault (bytes : Bytes) (e : Utf8Error) : Prop :=
  ∃ s rest, bytes = encode s ++ rest ∧ e.position = (encode s).length ∧
    Faulty rest e.kind e.bytes

theorem encode_cons (c : Char) (s : Text) : encode (c :: s) = String.utf8EncodeChar c ++ encode s :=
  List.flatMap_cons

theorem exists_encoded (c : Char) : ∃ first tail, String.utf8EncodeChar c = first :: tail := by
  have encodes := encodes_utf8EncodeChar c
  generalize String.utf8EncodeChar c = bytes at encodes
  cases encodes <;> exact ⟨_, _, rfl⟩

theorem decodeFrom_char (c : Char) (position : Nat) (rest : Bytes) :
    decodeFrom position (String.utf8EncodeChar c ++ rest) =
      (decodeFrom (position + (String.utf8EncodeChar c).length) rest).map (c :: ·) := by
  obtain ⟨first, tail, encoded⟩ := exists_encoded c
  obtain ⟨sequence, rfl⟩ := isSequence_of_encoded encoded
  rw [encoded, List.cons_append, decodeFrom, sequence.utf8Step]
  simp only [Nat.succ_sub_one, List.drop_left, List.length_cons]

theorem decodeFrom_encode (s : Text) (position : Nat) (rest : Bytes) :
    decodeFrom position (encode s ++ rest) =
      (decodeFrom (position + (encode s).length) rest).map (s ++ ·) := by
  induction s generalizing position with
  | nil => cases h : decodeFrom position rest <;> simp [encode, Except.map, h]
  | cons c s ih =>
    rw [encode_cons, List.append_assoc, decodeFrom_char, ih, List.length_append, Nat.add_assoc]
    cases decodeFrom (position + ((String.utf8EncodeChar c).length + (encode s).length)) rest <;> rfl

theorem Faulty.ne_nil {bytes faulty : Bytes} {kind : Utf8Fault} (fault : Faulty bytes kind faulty) :
    bytes ≠ [] := by
  cases fault with
  | invalidStart => exact List.cons_ne_nil _ _
  | invalidContinuation => simp
  | unexpectedEnd unfinished => exact unfinished.1

theorem decode?_encode (s : Text) : decode? (encode s) = .ok s := by
  have read := decodeFrom_encode s 0 []
  rw [List.append_nil, decodeFrom] at read
  rw [decode?, read, Except.map, List.append_nil]

theorem universalNewlines_eq_self (absent : '\r' ∉ s) : universalNewlines s = s := by
  induction s with
  | nil => rfl
  | cons c s ih =>
    rw [List.mem_cons, not_or] at absent
    obtain ⟨differ, others⟩ := absent
    rw [universalNewlines]
    · rw [if_neg (Ne.symm differ), ih others]
    · rintro rest rfl
      exact absurd rfl differ

end CHeader.Text
