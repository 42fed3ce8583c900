import Interaction.Text.Utf8

/-!
# Reading UTF-8 back

What `encodeChar` writes is read back by `next`, whatever bytes follow. Hence `decode` undoes
`encode`, and two texts with the same bytes are the same text. The lemmas before `next_encodeChar`
follow the four lengths a character may have, and speak of bytes by their values.
-/

namespace Interaction

namespace Utf8

theorem toNat_toUInt8 {n : Nat} (h : n < 256) : n.toUInt8.toNat = n := by
  rw [Nat.toUInt8_eq, UInt8.toNat_ofNat']
  omega

theorem isContinuation_iff {b : UInt8} :
    isContinuation b = true ↔ 0x80 ≤ b.toNat ∧ b.toNat ≤ 0xBF := by
  simp [isContinuation, UInt8.le_iff_toNat_le]

/-- The second byte of a three-byte character: the tests exclude surrogates and overlong forms. -/
theorem isSecondOfThree_iff {first b : UInt8} :
    isSecondOfThree first b = true ↔
      (if first.toNat = 0xE0 then 0xA0 else 0x80) ≤ b.toNat ∧
        b.toNat ≤ if first.toNat = 0xED then 0x9F else 0xBF := by
  simp only [isSecondOfThree, isContinuation, beq_iff_eq, ← UInt8.toNat_inj,
    UInt8.le_iff_toNat_le, UInt8.reduceToNat]
  by_cases h : first.toNat = 0xE0
  · simp [h]
  · by_cases h' : first.toNat = 0xED <;> simp [h, h']

/-- The second byte of a four-byte character: the tests exclude overlong forms and values that are
too large. -/
theorem isSecondOfFour_iff {first b : UInt8} :
    isSecondOfFour first b = true ↔
      (if first.toNat = 0xF0 then 0x90 else 0x80) ≤ b.toNat ∧
        b.toNat ≤ if first.toNat = 0xF4 then 0x8F else 0xBF := by
  simp only [isSecondOfFour, isContinuation, beq_iff_eq, ← UInt8.toNat_inj,
    UInt8.le_iff_toNat_le, UInt8.reduceToNat]
  by_cases h : first.toNat = 0xF0
  · simp [h]
  · by_cases h' : first.toNat = 0xF4 <;> simp [h, h']

theorem next_one {n : Nat} {b : UInt8} (h : n < 0x80) (hb : b.toNat = n) (rest : List UInt8) :
    next b rest = .char (Char.ofNat n) 0 := by
  simp [next, UInt8.lt_iff_toNat_lt, hb, h]

theorem next_two {n : Nat} {b₀ b₁ : UInt8} (hlow : 0x80 ≤ n) (h : n < 0x800)
    (h₀ : b₀.toNat = 0xC0 + n / 64) (h₁ : b₁.toNat = 0x80 + n % 64) (rest : List UInt8) :
    next b₀ (b₁ :: rest) = .char (Char.ofNat n) 1 := by
  have hcont : isContinuation b₁ = true := isContinuation_iff.2 (by omega)
  have hvalue : (b₀.toNat - 0xC0) * 64 + payload b₁ = n := by
    unfold payload
    omega
  have hread : nextOfTwo b₀ (b₁ :: rest) = .char (Char.ofNat n) 1 := by
    simp only [nextOfTwo, hcont, hvalue, if_true]
  rw [next, if_neg, if_pos, hread]
  · simp [UInt8.le_iff_toNat_le]
    omega
  · simp [UInt8.lt_iff_toNat_lt]
    omega

theorem next_three {n : Nat} {b₀ b₁ b₂ : UInt8} (hlow : 0x800 ≤ n) (h : n < 0x10000)
    (hvalid : n < 0xD800 ∨ 0xDFFF < n) (h₀ : b₀.toNat = 0xE0 + n / 4096)
    (h₁ : b₁.toNat = 0x80 + n / 64 % 64) (h₂ : b₂.toNat = 0x80 + n % 64) (rest : List UInt8) :
    next b₀ (b₁ :: b₂ :: rest) = .char (Char.ofNat n) 2 := by
  have hsecond : isSecondOfThree b₀ b₁ = true := by
    rw [isSecondOfThree_iff, h₀, h₁]
    constructor <;> split <;> omega
  have hcont : isContinuation b₂ = true := isContinuation_iff.2 (by omega)
  have hvalue : (b₀.toNat - 0xE0) * 4096 + payload b₁ * 64 + payload b₂ = n := by
    unfold payload
    omega
  have hread : nextOfThree b₀ (b₁ :: b₂ :: rest) = .char (Char.ofNat n) 2 := by
    simp only [nextOfThree, hsecond, hcont, hvalue, Bool.not_true, Bool.false_eq_true, if_false]
  rw [next, if_neg, if_neg, if_pos, hread]
  · simp [UInt8.le_iff_toNat_le]
    omega
  · simp [UInt8.le_iff_toNat_le]
    omega
  · simp [UInt8.lt_iff_toNat_lt]
    omega

theorem next_four {n : Nat} {b₀ b₁ b₂ b₃ : UInt8} (hlow : 0x10000 ≤ n) (h : n < 0x110000)
    (h₀ : b₀.toNat = 0xF0 + n / 262144) (h₁ : b₁.toNat = 0x80 + n / 4096 % 64)
    (h₂ : b₂.toNat = 0x80 + n / 64 % 64) (h₃ : b₃.toNat = 0x80 + n % 64) (rest : List UInt8) :
    next b₀ (b₁ :: b₂ :: b₃ :: rest) = .char (Char.ofNat n) 3 := by
  have hsecond : isSecondOfFour b₀ b₁ = true := by
    rw [isSecondOfFour_iff, h₀, h₁]
    constructor <;> split <;> omega
  have hthird : isContinuation b₂ = true := isContinuation_iff.2 (by omega)
  have hfourth : isContinuation b₃ = true := isContinuation_iff.2 (by omega)
  have hvalue : (b₀.toNat - 0xF0) * 262144 + payload b₁ * 4096 + payload b₂ * 64 + payload b₃ =
      n := by
    unfold payload
    omega
  have hread : nextOfFour b₀ (b₁ :: b₂ :: b₃ :: rest) = .char (Char.ofNat n) 3 := by
    simp only [nextOfFour, hsecond, hthird, hfourth, hvalue, Bool.not_true, Bool.false_eq_true,
      if_false]
  rw [next, if_neg, if_neg, if_neg, if_pos, hread]
  · simp [UInt8.le_iff_toNat_le]
    omega
  · simp [UInt8.le_iff_toNat_le]
    omega
  · simp [UInt8.le_iff_toNat_le]
    omega
  · simp [UInt8.lt_iff_toNat_lt]
    omega

/-- The bytes of a character are read back as that character. -/
theorem next_encodeChar (c : Char) (rest : List UInt8) :
    ∃ first more, encodeChar c = first :: more ∧
      next first (more ++ rest) = .char c more.length := by
  have hvalid : c.toNat < 0xD800 ∨ 0xDFFF < c.toNat ∧ c.toNat < 0x110000 := c.valid
  have hchar : c = Char.ofNat c.toNat := (Char.ofNat_toNat c).symm
  have byte {n : Nat} (h : n < 256) : n.toUInt8.toNat = n := toNat_toUInt8 h
  rw [encodeChar]
  split
  next h =>
    refine ⟨_, _, rfl, ?_⟩
    rw [List.nil_append, next_one h (byte (by omega)), ← hchar, List.length_nil]
  next h =>
    split
    next h' =>
      refine ⟨_, _, rfl, ?_⟩
      rw [List.singleton_append, next_two (by omega) h' (byte (by omega)) (byte (by omega)),
        ← hchar, List.length_singleton]
    next h' =>
      split
      next h'' =>
        refine ⟨_, _, rfl, ?_⟩
        rw [List.cons_append, List.singleton_append, next_three (by omega) h'' (by omega)
          (byte (by omega)) (byte (by omega)) (byte (by omega)), ← hchar]
        rfl
      next h'' =>
        refine ⟨_, _, rfl, ?_⟩
        rw [List.cons_append, List.cons_append, List.singleton_append, next_four (by omega)
          (by omega) (byte (by omega)) (byte (by omega)) (byte (by omega)) (byte (by omega)),
          ← hchar]
        rfl

theorem encode_cons (c : Char) (cs : List Char) : encode (c :: cs) = encodeChar c ++ encode cs :=
  rfl

theorem encode_nil : encode [] = [] := rfl

theorem encode_append (cs ds : List Char) : encode (cs ++ ds) = encode cs ++ encode ds :=
  List.flatMap_append

theorem decodeFrom_encode (cs : List Char) (index : Nat) :
    decodeFrom index (encode cs) = .ok cs := by
  induction cs generalizing index with
  | nil => rw [encode, List.flatMap_nil, decodeFrom]
  | cons c cs ih =>
      obtain ⟨first, more, hbytes, hnext⟩ := next_encodeChar c (encode cs)
      rw [encode_cons, hbytes, List.cons_append, decodeFrom, hnext]
      simp [ih, Except.map]

/-- The bytes of a run of characters are those characters. -/
theorem decode_encode (cs : List Char) : decode (encode cs) = .ok cs :=
  decodeFrom_encode cs 0

/-- Nothing in the bytes of a run of characters is malformed. -/
theorem symbols_encode (cs : List Char) : symbols (encode cs) = cs.map some := by
  induction cs with
  | nil => rw [encode_nil, symbols, List.map_nil]
  | cons c cs ih =>
      obtain ⟨first, more, hbytes, hnext⟩ := next_encodeChar c (encode cs)
      rw [encode_cons, hbytes, List.cons_append, symbols, hnext]
      simp only [List.drop_left, ih, List.map_cons]

theorem encode_injective {cs ds : List Char} (h : encode cs = encode ds) : cs = ds := by
  have hdecoded : decode (encode cs) = decode (encode ds) := congrArg decode h
  rw [decode_encode, decode_encode] at hdecoded
  exact Except.ok.inj hdecoded

theorem decode_ofText (s : String) : decode (ofText s) = .ok s.toList :=
  decode_encode s.toList

/-- Two texts with the same bytes are the same text. -/
theorem ofText_injective {s t : String} (h : ofText s = ofText t) : s = t :=
  String.toList_inj.1 (encode_injective h)

/-- A run of ASCII characters takes one byte for each. -/
theorem length_encode_of_ascii {cs : List Char} (h : ∀ c ∈ cs, c.toNat < 0x80) :
    (encode cs).length = cs.length := by
  induction cs with
  | nil => rfl
  | cons c cs ih =>
      have hc : c.toNat < 0x80 := h c (.head _)
      have hcs : (encode cs).length = cs.length := ih fun d hd => h d (.tail _ hd)
      rw [encode_cons, List.length_append, hcs, encodeChar, if_pos hc, List.length_singleton,
        List.length_cons, Nat.add_comm]

theorem size_append (cs ds : List Char) : size (cs ++ ds) = size cs + size ds := by
  rw [size, size, size, encode_append, List.length_append]

end Utf8

end Interaction
