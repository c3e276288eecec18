import TwoPass.Object.Image

set_option autoImplicit false

/-!
# The bytes that digits stand for

Digits stand for bytes two by two.  `Denotes` says so without a decoder; decoding finds exactly what
digits denote, and fails exactly where they denote nothing.
-/

namespace TwoPass.Object

/-- Hexadecimal digits and the bytes that they stand for. -/
inductive Denotes : Bytes → Bytes → Prop where
  | nil : Denotes [] []
  | pair {high low : UInt8} {h l : Nat} {digits bytes : Bytes} :
      Numeral.digit? high = some h → h < 16 → Numeral.digit? low = some l → l < 16 →
      Denotes digits bytes → Denotes (high :: low :: digits) (UInt8.ofNat (h * 16 + l) :: bytes)

/-- Hexadecimal digits that come in pairs. -/
def WholeBytes (digits : Bytes) : Prop :=
  (∀ b ∈ digits, Numeral.isHexDigit b = true) ∧ digits.length % 2 = 0

/-- What is wrong with digits that stand for no bytes. -/
inductive BadDigits (digits : Bytes) : HexFault → Prop where
  /-- a byte among them is no hexadecimal digit, and it is the first such byte -/
  | badDigit {before after : Bytes} {digit : UInt8} :
      digits = before ++ digit :: after → (∀ b ∈ before, Numeral.isHexDigit b = true) →
      Numeral.isHexDigit digit = false → BadDigits digits (.badDigit digit)
  /-- they are hexadecimal digits, but an odd number of them -/
  | oddLength : (∀ b ∈ digits, Numeral.isHexDigit b = true) → digits.length % 2 = 1 →
      BadDigits digits .oddLength

/-- The bytes of pairs of digits. -/
def bytesOf (digits : Bytes) : Bytes := joinDigits digits []

/-! ## Pairs -/

/-- The bytes found before stay in front. -/
theorem joinDigits_eq_append : ∀ digits found : Bytes,
    joinDigits digits found = found.reverse ++ bytesOf digits
  | [], found => by simp [joinDigits, bytesOf]
  | [_], found => by simp [joinDigits, bytesOf]
  | high :: low :: rest, found => by
    have hfound := joinDigits_eq_append rest (byteOfDigits high low :: found)
    have hpair := joinDigits_eq_append rest [byteOfDigits high low]
    have hbytes : bytesOf (high :: low :: rest) = byteOfDigits high low :: bytesOf rest := by
      rw [bytesOf, joinDigits, hpair]
      rfl
    rw [joinDigits, hfound, hbytes]
    simp

theorem bytesOf_cons_cons (high low : UInt8) (rest : Bytes) :
    bytesOf (high :: low :: rest) = byteOfDigits high low :: bytesOf rest := by
  rw [bytesOf, joinDigits, joinDigits_eq_append]
  rfl

theorem length_bytesOf : ∀ digits : Bytes, (bytesOf digits).length = codeSize digits
  | [] => rfl
  | [_] => by simp [bytesOf, joinDigits, codeSize]
  | high :: low :: rest => by
    have hrest := length_bytesOf rest
    rw [bytesOf_cons_cons, List.length_cons, hrest]
    simp only [codeSize, List.length_cons]
    omega

/-- Digits put together denote bytes put together, if no pair is torn apart. -/
theorem bytesOf_append : ∀ {front : Bytes}, front.length % 2 = 0 → ∀ back : Bytes,
    bytesOf (front ++ back) = bytesOf front ++ bytesOf back
  | [], _, back => rfl
  | [_], h, back => by simp at h
  | high :: low :: rest, h, back => by
    have hrest : rest.length % 2 = 0 := by
      simp only [List.length_cons] at h
      omega
    rw [List.cons_append, List.cons_append, bytesOf_cons_cons, bytesOf_cons_cons,
      bytesOf_append hrest back]
    rfl

theorem WholeBytes.nil : WholeBytes [] := ⟨by simp, rfl⟩

theorem WholeBytes.append {front back : Bytes} (hfront : WholeBytes front)
    (hback : WholeBytes back) : WholeBytes (front ++ back) := by
  refine ⟨?_, ?_⟩
  · intro b hb
    rcases List.mem_append.mp hb with hb | hb
    · exact hfront.1 b hb
    · exact hback.1 b hb
  · have hlength := hfront.2
    have hlength' := hback.2
    rw [List.length_append]
    omega

/-! ## Decoding -/

/-- The byte of two digits, by their values. -/
theorem byteOfDigits_eq {high low : UInt8} {h l : Nat} (hhigh : Numeral.digit? high = some h)
    (hlow : Numeral.digit? low = some l) : byteOfDigits high low = UInt8.ofNat (h * 16 + l) := by
  simp [byteOfDigits, hhigh, hlow]

theorem exists_digit?_of_isHexDigit {b : UInt8} (h : Numeral.isHexDigit b = true) :
    ∃ value, Numeral.digit? b = some value ∧ value < 16 := by
  unfold Numeral.isHexDigit at h
  cases hdigit : Numeral.digit? b with
  | none => simp [hdigit] at h
  | some value => exact ⟨value, rfl, by simpa [hdigit] using h⟩

theorem WholeBytes.denotes : ∀ {digits : Bytes}, WholeBytes digits → Denotes digits (bytesOf digits)
  | [], _ => .nil
  | [_], h => by simp [WholeBytes] at h
  | high :: low :: rest, h => by
    obtain ⟨vh, hhigh, hlt⟩ := exists_digit?_of_isHexDigit (h.1 high (by simp))
    obtain ⟨vl, hlow, hlt'⟩ := exists_digit?_of_isHexDigit (h.1 low (by simp))
    have hrest : WholeBytes rest := by
      refine ⟨fun b hb => h.1 b (by simp [hb]), ?_⟩
      have hlength := h.2
      simp only [List.length_cons] at hlength
      omega
    rw [bytesOf_cons_cons, byteOfDigits_eq hhigh hlow]
    exact .pair hhigh hlt hlow hlt' hrest.denotes

/-- What digits denote is found by decoding them, and nothing else is. -/
theorem denotes_iff {digits bytes : Bytes} :
    Denotes digits bytes ↔ WholeBytes digits ∧ bytes = bytesOf digits := by
  constructor
  · intro h
    induction h with
    | nil => exact ⟨.nil, rfl⟩
    | pair hhigh hlt hlow hlt' _ ih =>
      obtain ⟨hwhole, rfl⟩ := ih
      refine ⟨⟨?_, ?_⟩, ?_⟩
      · intro b hb
        rcases List.mem_cons.mp hb with rfl | hb
        · simp [Numeral.isHexDigit, hhigh, hlt]
        · rcases List.mem_cons.mp hb with rfl | hb
          · simp [Numeral.isHexDigit, hlow, hlt']
          · exact hwhole.1 b hb
      · have hlength := hwhole.2
        simp only [List.length_cons]
        omega
      · rw [bytesOf_cons_cons, byteOfDigits_eq hhigh hlow]
  · rintro ⟨hwhole, rfl⟩
    exact hwhole.denotes

theorem decodeHex_eq_ok_iff {digits bytes : Bytes} :
    decodeHex digits = .ok bytes ↔ Denotes digits bytes := by
  rw [denotes_iff]
  unfold decodeHex
  cases hfind : digits.find? (!Numeral.isHexDigit ·) with
  | some digit =>
    have hmem := List.mem_of_find?_eq_some hfind
    have hbad := List.find?_some hfind
    constructor
    · simp
    · rintro ⟨hwhole, _⟩
      simp [hwhole.1 digit hmem] at hbad
  | none =>
    have hall : ∀ b ∈ digits, Numeral.isHexDigit b = true := by
      simpa using List.find?_eq_none.mp hfind
    by_cases hodd : digits.length % 2 = 1
    · simp [hodd, WholeBytes]
    · have heven : digits.length % 2 = 0 := by omega
      simp only [hodd, if_false]
      constructor
      · intro h
        exact ⟨⟨hall, heven⟩, (Except.ok.inj h).symm⟩
      · rintro ⟨_, rfl⟩
        rfl

theorem decodeHex_eq_error_iff {digits : Bytes} {fault : HexFault} :
    decodeHex digits = .error fault ↔ BadDigits digits fault := by
  unfold decodeHex
  cases hfind : digits.find? (!Numeral.isHexDigit ·) with
  | some digit =>
    obtain ⟨hbad, before, after, hsplit, hbefore⟩ := List.find?_eq_some_iff_append.mp hfind
    have hdigit : BadDigits digits (.badDigit digit) :=
      .badDigit hsplit (by simpa using hbefore) (by simpa using hbad)
    constructor
    · intro h
      exact Except.error.inj h ▸ hdigit
    · intro h
      cases h with
      | @badDigit front back other hsplit' hfront hother =>
        have hfirst : digits.find? (!Numeral.isHexDigit ·) = some other :=
          List.find?_eq_some_iff_append.mpr ⟨by simp [hother], front, back, hsplit',
            by simpa using hfront⟩
        obtain rfl : digit = other := Option.some.inj (hfind.symm.trans hfirst)
        rfl
      | oddLength hall _ => simp [hall digit (by simp [hsplit])] at hbad
  | none =>
    have hall : ∀ b ∈ digits, Numeral.isHexDigit b = true := by
      simpa using List.find?_eq_none.mp hfind
    simp only
    constructor
    · intro h
      split at h
      · rename_i hodd
        exact Except.error.inj h ▸ .oddLength hall hodd
      · cases h
    · intro h
      cases h with
      | @badDigit _ _ digit hsplit _ hbad => simp [hall digit (by simp [hsplit])] at hbad
      | oddLength _ hodd => rw [if_pos hodd]

end TwoPass.Object
