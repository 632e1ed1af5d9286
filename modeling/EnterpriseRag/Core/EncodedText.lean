import EnterpriseRag.Core.Encoding

/-!
# Texts in base64 and hexadecimal

`base64.b64encode` and its way back through `b64decode`, the way of ASCII text through its
bytes, and what the characters of an encoded text are.
-/

namespace EnterpriseRag

/-- The character of the standard base64 alphabet for a value. -/
def base64Char (n : ℕ) : Char :=
  if n < 26 then .ofNat (n + 'A'.toNat)
  else if n < 52 then .ofNat (n - 26 + 'a'.toNat)
  else if n < 62 then .ofNat (n - 52 + '0'.toNat)
  else if n = 62 then '+'
  else '/'

/-- `base64.b64encode`. -/
def b64encode : List UInt8 → List Char
  | [] => []
  | [a] =>
    let n := a.toNat * 16
    [base64Char (n / 64), base64Char (n % 64), '=', '=']
  | [a, b] =>
    let n := (a.toNat * 256 + b.toNat) * 4
    [base64Char (n / 4096), base64Char (n / 64 % 64), base64Char (n % 64), '=']
  | a :: b :: c :: rest =>
    let n := (a.toNat * 256 + b.toNat) * 256 + c.toNat
    base64Char (n / 262144) :: base64Char (n / 4096 % 64) :: base64Char (n / 64 % 64) ::
      base64Char (n % 64) :: b64encode rest

/-- `str.encode` of ASCII text. -/
def asciiBytes (text : List Char) : List UInt8 :=
  text.map fun c => .ofNat c.toNat

/-! ## The way back -/

theorem base64Value_base64Char : ∀ n < 64, base64Value (base64Char n) = some n := by
  decide

theorem base64Char_ne (n : ℕ) (hn : n < 64) : base64Char n ≠ '=' := by
  intro h
  have hvalue := base64Value_base64Char n hn
  rw [h] at hvalue
  exact absurd hvalue (by decide +revert)

theorem b64decode_group {a b c d : Char} (hd : d ≠ '=') (rest : List Char) :
    b64decode (a :: b :: c :: d :: rest) = (do
      let n := (((← base64Value a) * 64 + (← base64Value b)) * 64 + (← base64Value c)) * 64 +
        (← base64Value d)
      return .ofNat (n / 65536) :: .ofNat (n / 256) :: .ofNat n :: (← b64decode rest)) := by
  rw [b64decode]
  · rintro - h -
    exact hd h
  · rintro h -
    exact hd h

theorem b64decode_three {a b c : Char} (hc : c ≠ '=') : b64decode [a, b, c, '='] = (do
      let n := ((← base64Value a) * 64 + (← base64Value b)) * 64 + (← base64Value c)
      return [.ofNat (n / 1024), .ofNat (n / 4)]) := by
  rw [b64decode]
  exact hc

theorem ofNat_byte (high : ℕ) (b : UInt8) : UInt8.ofNat (high * 256 + b.toNat) = b := by
  have hb := b.toNat_lt
  refine UInt8.toNat_inj.1 ?_
  rw [UInt8.toNat_ofNat']
  omega

/-- Decoding gives the bytes back. -/
theorem b64decode_b64encode (bytes : List UInt8) : b64decode (b64encode bytes) = some bytes := by
  induction bytes using b64encode.induct with
  | case1 => rfl
  | case2 a =>
    have ha := a.toNat_lt
    have hn : (a.toNat * 16 / 64 * 64 + a.toNat * 16 % 64) / 16 = a.toNat := by omega
    simp only [b64encode, b64decode, base64Value_base64Char _ (show a.toNat * 16 / 64 < 64 by omega),
      base64Value_base64Char _ (Nat.mod_lt _ (by decide : 64 > 0)), Option.bind_eq_bind,
      Option.bind_some, hn, UInt8.ofNat_toNat]
    rfl
  | case3 a b =>
    have ha := a.toNat_lt
    have hb := b.toNat_lt
    have hc : base64Char ((a.toNat * 256 + b.toNat) * 4 % 64) ≠ '=' :=
      base64Char_ne _ (Nat.mod_lt _ (by decide))
    have hn : ((a.toNat * 256 + b.toNat) * 4 / 4096 * 64 +
        (a.toNat * 256 + b.toNat) * 4 / 64 % 64) * 64 + (a.toNat * 256 + b.toNat) * 4 % 64 =
          (a.toNat * 256 + b.toNat) * 4 := by
      omega
    simp only [b64encode, b64decode_three hc,
      base64Value_base64Char _ (show (a.toNat * 256 + b.toNat) * 4 / 4096 < 64 by omega),
      base64Value_base64Char _ (Nat.mod_lt _ (by decide : 64 > 0)), Option.bind_eq_bind,
      Option.bind_some, hn,
      show (a.toNat * 256 + b.toNat) * 4 / 1024 = a.toNat by omega,
      show (a.toNat * 256 + b.toNat) * 4 / 4 = a.toNat * 256 + b.toNat by omega,
      UInt8.ofNat_toNat, ofNat_byte]
    rfl
  | case4 a b c rest ih =>
    have ha := a.toNat_lt
    have hb := b.toNat_lt
    have hc := c.toNat_lt
    have hlast : base64Char (((a.toNat * 256 + b.toNat) * 256 + c.toNat) % 64) ≠ '=' :=
      base64Char_ne _ (Nat.mod_lt _ (by decide))
    generalize hn : (a.toNat * 256 + b.toNat) * 256 + c.toNat = n at *
    have hparts : ((n / 262144 * 64 + n / 4096 % 64) * 64 + n / 64 % 64) * 64 + n % 64 = n := by
      omega
    simp only [b64encode, hn, b64decode_group hlast,
      base64Value_base64Char _ (show n / 262144 < 64 by omega),
      base64Value_base64Char _ (Nat.mod_lt _ (by decide : 64 > 0)), Option.bind_eq_bind,
      Option.bind_some, hparts, ih]
    rw [show n / 65536 = a.toNat by omega, show n / 256 = a.toNat * 256 + b.toNat by omega, ← hn,
      UInt8.ofNat_toNat, ofNat_byte, ofNat_byte]
    rfl

/-- ASCII text is what its bytes decode to. -/
theorem decodeUtf8_asciiBytes : ∀ {text : List Char}, (∀ c ∈ text, c.toNat < 128) →
    decodeUtf8 (asciiBytes text) = some text
  | [], _ => rfl
  | c :: text, h => by
    have hc := h c List.mem_cons_self
    have hbyte : (UInt8.ofNat c.toNat).toNat = c.toNat := by
      rw [UInt8.toNat_ofNat']
      omega
    have hlow : UInt8.ofNat c.toNat < 0x80 := by
      rw [UInt8.lt_iff_toNat_lt, hbyte]
      exact hc
    have ih := decodeUtf8_asciiBytes fun d hd => h d (List.mem_cons_of_mem _ hd)
    rw [asciiBytes, List.map_cons, decodeUtf8.eq_def]
    dsimp only
    rw [if_pos hlow, hbyte, Char.ofNat_toNat, ← asciiBytes, ih]
    rfl

/-! ## The characters -/

theorem range_of_hexValue {c : Char} (h : (hexValue c).isSome = true) :
    (0x30 ≤ c.toNat ∧ c.toNat ≤ 0x39) ∨ (0x61 ≤ c.toNat ∧ c.toNat ≤ 0x66) ∨
      (0x41 ≤ c.toNat ∧ c.toNat ≤ 0x46) := by
  rw [hexValue] at h
  split at h
  · exact Or.inl ‹_›
  split at h
  · exact Or.inr (Or.inl ‹_›)
  split at h
  · exact Or.inr (Or.inr ‹_›)
  · exact nomatch h

theorem range_of_base64Value {c : Char} : (base64Value c).isSome = true ↔
    (0x41 ≤ c.toNat ∧ c.toNat ≤ 0x5a) ∨ (0x61 ≤ c.toNat ∧ c.toNat ≤ 0x7a) ∨
      (0x30 ≤ c.toNat ∧ c.toNat ≤ 0x39) ∨ c = '+' ∨ c = '/' := by
  rw [base64Value]
  constructor
  · intro h
    split at h
    · exact Or.inl ‹_›
    split at h
    · exact Or.inr (Or.inl ‹_›)
    split at h
    · exact Or.inr (Or.inr (Or.inl ‹_›))
    split at h
    · exact Or.inr (Or.inr (Or.inr (Or.inl ‹_›)))
    split at h
    · exact Or.inr (Or.inr (Or.inr (Or.inr ‹_›)))
    · exact nomatch h
  · intro h
    split
    · rfl
    split
    · rfl
    split
    · rfl
    split
    · rfl
    split
    · rfl
    · rename_i hupper hlower hdigit hplus hslash
      rcases h with h | h | h | h | h
      · exact absurd h hupper
      · exact absurd h hlower
      · exact absurd h hdigit
      · exact absurd h hplus
      · exact absurd h hslash

theorem base64Value_of_hexValue {c : Char} (h : (hexValue c).isSome = true) :
    (base64Value c).isSome = true := by
  refine range_of_base64Value.2 ?_
  rcases range_of_hexValue h with h | h | h
  · exact Or.inr (Or.inr (Or.inl h))
  · exact Or.inr (Or.inl ⟨h.1, Nat.le_trans h.2 (by decide)⟩)
  · exact Or.inl ⟨h.1, Nat.le_trans h.2 (by decide)⟩

theorem isAlphanum_of_hexValue {c : Char} (h : (hexValue c).isSome = true) :
    c.isAlphanum = true := by
  change ((decide (c.val ≥ 0x41 ∧ c.val ≤ 0x5a) ||
    decide (c.val ≥ 0x61) && decide (c.val ≤ 0x7a)) ||
    decide (c.val ≥ 0x30) && decide (c.val ≤ 0x39)) = true
  simp only [Bool.or_eq_true, Bool.and_eq_true, decide_eq_true_eq, ge_iff_le,
    UInt32.le_iff_toNat_le]
  rcases range_of_hexValue h with h | h | h
  · exact Or.inr h
  · exact Or.inl (Or.inr ⟨h.1, Nat.le_trans h.2 (by decide)⟩)
  · exact Or.inl (Or.inl ⟨h.1, Nat.le_trans h.2 (by decide)⟩)

theorem toNat_of_base64Value {c : Char} (h : (base64Value c).isSome = true) :
    0x2b ≤ c.toNat ∧ c.toNat ≤ 0x7a ∧ c ≠ '=' := by
  refine ⟨?_, ?_, ?_⟩
  · rcases range_of_base64Value.1 h with h | h | h | rfl | rfl
    · omega
    · omega
    · omega
    · decide
    · decide
  · rcases range_of_base64Value.1 h with h | h | h | rfl | rfl
    · omega
    · omega
    · omega
    · decide
    · decide
  · rintro rfl
    exact absurd h (by decide)

theorem isAlphanum_base64Char : ∀ n < 62, (base64Char n).isAlphanum = true := by
  decide

/-- The first character of a text in base64. -/
theorem exists_b64encode_cons (a : UInt8) (rest : List UInt8) :
    ∃ tail, b64encode (a :: rest) = base64Char (a.toNat / 4) :: tail := by
  match rest with
  | [] => exact ⟨_, by rw [b64encode, show a.toNat * 16 / 64 = a.toNat / 4 by omega]⟩
  | [b] =>
    have hb := b.toNat_lt
    exact ⟨_, by
      rw [b64encode, show (a.toNat * 256 + b.toNat) * 4 / 4096 = a.toNat / 4 by omega]⟩
  | b :: c :: rest =>
    have hb := b.toNat_lt
    have hc := c.toNat_lt
    exact ⟨_, by
      rw [b64encode,
        show ((a.toNat * 256 + b.toNat) * 256 + c.toNat) / 262144 = a.toNat / 4 by omega]⟩

/-- Characters of the alphabet, and at most two for padding. -/
theorem exists_padding (bytes : List UInt8) : ∃ body padding, b64encode bytes = body ++ padding ∧
    (∀ c ∈ body, (base64Value c).isSome = true) ∧ (∀ c ∈ padding, c = '=') ∧
      padding.length ≤ 2 := by
  have hchar : ∀ n < 64, (base64Value (base64Char n)).isSome = true := fun n hn => by
    rw [base64Value_base64Char n hn]
    rfl
  induction bytes using b64encode.induct with
  | case1 => exact ⟨[], [], rfl, by simp, by simp, by decide⟩
  | case2 a =>
    have ha := a.toNat_lt
    refine ⟨[base64Char (a.toNat * 16 / 64), base64Char (a.toNat * 16 % 64)], ['=', '='], rfl, ?_,
      by simp, by decide⟩
    exact List.forall_mem_cons.2 ⟨hchar _ (by omega),
      List.forall_mem_singleton.2 (hchar _ (by omega))⟩
  | case3 a b =>
    have ha := a.toNat_lt
    have hb := b.toNat_lt
    refine ⟨[base64Char ((a.toNat * 256 + b.toNat) * 4 / 4096),
      base64Char ((a.toNat * 256 + b.toNat) * 4 / 64 % 64),
      base64Char ((a.toNat * 256 + b.toNat) * 4 % 64)], ['='], rfl, ?_, by simp, by decide⟩
    exact List.forall_mem_cons.2 ⟨hchar _ (by omega), List.forall_mem_cons.2
      ⟨hchar _ (by omega), List.forall_mem_singleton.2 (hchar _ (by omega))⟩⟩
  | case4 a b c rest ih =>
    have ha := a.toNat_lt
    have hb := b.toNat_lt
    have hc := c.toNat_lt
    obtain ⟨body, padding, hrest, hbody, hpadding⟩ := ih
    refine ⟨_ :: _ :: _ :: _ :: body, padding, by rw [b64encode, hrest]; rfl, ?_, hpadding⟩
    simp only [List.forall_mem_cons]
    exact ⟨hchar _ (by omega), hchar _ (by omega), hchar _ (by omega), hchar _ (by omega), hbody⟩

/-- Hexadecimal digits in pairs, one for each byte. -/
theorem exists_pairs : ∀ {text : List Char} {bytes : List UInt8}, fromHex text = some bytes →
    ∃ pairs : List (List Char), text = pairs.flatten ∧ text.length = 2 * pairs.length ∧
      ∀ pair ∈ pairs, ∃ a b, pair = [a, b] ∧ (hexValue a).isSome = true ∧ (hexValue b).isSome = true
  | [], _, _ => ⟨[], rfl, rfl, by simp⟩
  | [_], _, h => nomatch h
  | a :: b :: rest, bytes, h => by
    obtain ⟨va, ha, h⟩ := Option.bind_eq_some_iff.1 h
    obtain ⟨vb, hb, h⟩ := Option.bind_eq_some_iff.1 h
    obtain ⟨bytes', hrest, -⟩ := Option.bind_eq_some_iff.1 h
    obtain ⟨pairs, rfl, hlength, hpairs⟩ := exists_pairs hrest
    refine ⟨[a, b] :: pairs, rfl, ?_, List.forall_mem_cons.2 ⟨⟨a, b, rfl, ?_, ?_⟩, hpairs⟩⟩
    · rw [List.length_cons, List.length_cons, hlength, List.length_cons, Nat.mul_succ]
    · rw [ha]
      rfl
    · rw [hb]
      rfl

end EnterpriseRag
