import Mathlib.Data.List.Basic

/-!
# UTF-8 with replacement characters

The decoder that never fails: what is no UTF-8 becomes U+FFFD, one for each longest part of a
character that is cut short, and one for each byte that starts nothing.

* `encode`, `decode`: a text in bytes and back.
* `decode_encode`: a text survives.
* `drop_encode`: bytes cut off in front cost at most one character.
-/

namespace Text.Utf8

/-- A text in UTF-8. -/
def encode (s : List Char) : List UInt8 := s.flatMap String.utf8EncodeChar

/-- The replacement character. -/
def replacement : Char := Char.ofNat 0xFFFD

/-- A character of which some bytes are still to come, the next one in a range. -/
structure Pending where
  value : ℕ
  needed : ℕ
  low : ℕ
  high : ℕ

/-- The first byte of a character. -/
def first (b : ℕ) : List Char × Option Pending :=
  if b < 0x80 then ([Char.ofNat b], none)
  else if b < 0xC2 then ([replacement], none)
  else if b < 0xE0 then ([], some ⟨b - 0xC0, 1, 0x80, 0xBF⟩)
  else if b < 0xF0 then
    ([], some ⟨b - 0xE0, 2, if b = 0xE0 then 0xA0 else 0x80, if b = 0xED then 0x9F else 0xBF⟩)
  else if b < 0xF5 then
    ([], some ⟨b - 0xF0, 3, if b = 0xF0 then 0x90 else 0x80, if b = 0xF4 then 0x8F else 0xBF⟩)
  else ([replacement], none)

/-- The next byte: it goes on with the character or cuts it short. -/
def next : Option Pending → ℕ → List Char × Option Pending
  | none, b => first b
  | some p, b =>
    if p.low ≤ b ∧ b ≤ p.high then
      let value := p.value * 64 + (b - 0x80)
      if p.needed = 1 then ([Char.ofNat value], none)
      else ([], some ⟨value, p.needed - 1, 0x80, 0xBF⟩)
    else (replacement :: (first b).1, (first b).2)

def decodeFrom : Option Pending → List UInt8 → List Char
  | none, [] => []
  | some _, [] => [replacement]
  | p, b :: bs => (next p b.toNat).1 ++ decodeFrom (next p b.toNat).2 bs

/-- Decoding with errors replaced. -/
def decode (bs : List UInt8) : List Char := decodeFrom none bs

variable {s a b : List Char} {bs : List UInt8} {c : Char}

@[simp] theorem encode_append : encode (a ++ b) = encode a ++ encode b := by
  simp [encode]

theorem encode_cons : encode (c :: s) = String.utf8EncodeChar c ++ encode s := rfl

/-! ## A character survives -/

/-- A byte that goes on with a character. -/
def IsTail (b : UInt8) : Prop := 0x80 ≤ b.toNat ∧ b.toNat < 0xC0

theorem decodeFrom_cons (p : Option Pending) (b : UInt8) (bs : List UInt8) :
    decodeFrom p (b :: bs) = (next p b.toNat).1 ++ decodeFrom (next p b.toNat).2 bs := by
  cases p <;> rfl

theorem decodeFrom_more {v n low high : ℕ} {b : UInt8} (hlow : low ≤ b.toNat)
    (hhigh : b.toNat ≤ high) :
    decodeFrom (some ⟨v, n + 2, low, high⟩) (b :: bs) =
      decodeFrom (some ⟨v * 64 + (b.toNat - 0x80), n + 1, 0x80, 0xBF⟩) bs := by
  rw [decodeFrom_cons]
  simp [next, hlow, hhigh]

theorem decodeFrom_last {v low high : ℕ} {b : UInt8} (hlow : low ≤ b.toNat)
    (hhigh : b.toNat ≤ high) :
    decodeFrom (some ⟨v, 1, low, high⟩) (b :: bs) =
      Char.ofNat (v * 64 + (b.toNat - 0x80)) :: decode bs := by
  rw [decodeFrom_cons]
  simp [next, hlow, hhigh, decode]

/-- **A character is read back.** -/
theorem decode_encodeChar : decode (String.utf8EncodeChar c ++ bs) = c :: decode bs := by
  obtain ⟨v, hv⟩ : ∃ v, v = c.val.toNat := ⟨_, rfl⟩
  have hc : Char.ofNat v = c := hv ▸ Char.ofNat_toNat c
  have hvalid : v < 0xD800 ∨ 0xDFFF < v ∧ v < 0x110000 := hv ▸ c.valid
  have hbyte : ∀ n, n < 256 → (UInt8.ofNat n).toNat = n := fun n hn => by
    rw [UInt8.toNat_ofNat', Nat.mod_eq_of_lt hn]
  unfold String.utf8EncodeChar
  rw [← hv]
  dsimp only
  split
  · -- one byte
    rw [List.singleton_append, decode, decodeFrom_cons, hbyte v (by omega), next, first,
      if_pos (by omega), hc]
    rfl
  split
  · have h₀ := hbyte (v / 64 % 0x20 + 0xc0) (by omega)
    have h₁ := hbyte (v % 0x40 + 0x80) (by omega)
    rw [List.cons_append, decode, decodeFrom_cons, h₀, next, first, if_neg (by omega),
      if_neg (by omega), if_pos (by omega), List.nil_append, List.cons_append, List.nil_append,
      decodeFrom_last (by omega) (by omega), h₁]
    rw [show (v / 64 % 0x20 + 0xc0 - 0xC0) * 64 + (v % 0x40 + 0x80 - 0x80) = v by omega, hc]
  split
  · have h₀ := hbyte (v / 4096 % 0x10 + 0xe0) (by omega)
    have h₁ := hbyte (v / 64 % 0x40 + 0x80) (by omega)
    have h₂ := hbyte (v % 0x40 + 0x80) (by omega)
    rw [List.cons_append, decode, decodeFrom_cons, h₀, next, first, if_neg (by omega),
      if_neg (by omega), if_neg (by omega), if_pos (by omega), List.nil_append, List.cons_append,
      decodeFrom_more (by split <;> omega) (by split <;> omega), List.cons_append, List.nil_append,
      decodeFrom_last (by omega) (by omega), h₁, h₂]
    rw [show ((v / 4096 % 0x10 + 0xe0 - 0xE0) * 64 + (v / 64 % 0x40 + 0x80 - 0x80)) * 64 +
      (v % 0x40 + 0x80 - 0x80) = v by omega, hc]
  · have h₀ := hbyte (v / 262144 % 0x08 + 0xf0) (by omega)
    have h₁ := hbyte (v / 4096 % 0x40 + 0x80) (by omega)
    have h₂ := hbyte (v / 64 % 0x40 + 0x80) (by omega)
    have h₃ := hbyte (v % 0x40 + 0x80) (by omega)
    rw [List.cons_append, decode, decodeFrom_cons, h₀, next, first, if_neg (by omega),
      if_neg (by omega), if_neg (by omega), if_neg (by omega), if_pos (by omega), List.nil_append,
      List.cons_append, decodeFrom_more (by split <;> omega) (by split <;> omega), List.cons_append,
      decodeFrom_more (by omega) (by omega), List.cons_append, List.nil_append,
      decodeFrom_last (by omega) (by omega), h₁, h₂, h₃]
    rw [show (((v / 262144 % 0x08 + 0xf0 - 0xF0) * 64 + (v / 4096 % 0x40 + 0x80 - 0x80)) * 64 +
      (v / 64 % 0x40 + 0x80 - 0x80)) * 64 + (v % 0x40 + 0x80 - 0x80) = v by omega, hc]

/-- **A text is read back.** -/
theorem decode_encode (s : List Char) : decode (encode s) = s := by
  induction s with
  | nil => rfl
  | cons c s ih => rw [encode_cons, decode_encodeChar, ih]

/-! ## A text with its front cut off -/

/-- A byte that starts nothing is replaced. -/
theorem decode_tail {b : UInt8} (hb : IsTail b) : decode (b :: bs) = replacement :: decode bs := by
  obtain ⟨hlow, hhigh⟩ := hb
  rw [decode, decodeFrom_cons, next, first, if_neg (by omega), if_pos (by omega)]
  rfl

theorem decode_tails {l : List UInt8} (hl : ∀ b ∈ l, IsTail b) :
    decode (l ++ bs) = List.replicate l.length replacement ++ decode bs := by
  induction l with
  | nil => rfl
  | cons b l ih =>
    rw [List.cons_append, decode_tail (hl b (by simp)), ih fun a ha => hl a (by simp [ha])]
    rfl

/-- All bytes of a character but the first go on with it. -/
theorem tails_of_encodeChar (c : Char) :
    ∃ b l, String.utf8EncodeChar c = b :: l ∧ ∀ x ∈ l, IsTail x := by
  have htail : ∀ n, IsTail (UInt8.ofNat (n % 0x40 + 0x80)) := fun n => by
    unfold IsTail
    rw [UInt8.toNat_ofNat']
    omega
  unfold String.utf8EncodeChar
  dsimp only
  split
  · exact ⟨_, _, rfl, by simp⟩
  split
  · exact ⟨_, _, rfl, List.forall_mem_singleton.2 (htail _)⟩
  split
  · exact ⟨_, _, rfl, List.forall_mem_cons.2 ⟨htail _, List.forall_mem_singleton.2 (htail _)⟩⟩
  · exact ⟨_, _, rfl, List.forall_mem_cons.2 ⟨htail _,
      List.forall_mem_cons.2 ⟨htail _, List.forall_mem_singleton.2 (htail _)⟩⟩⟩

/-- **Bytes cut off in front** leave the rest of one character and the characters after it. -/
theorem drop_encode {n : ℕ} (hn : n ≤ (encode s).length) :
    ∃ l a b, (encode s).drop n = l ++ encode b ∧ s = a ++ b ∧ ∀ x ∈ l, IsTail x := by
  induction s generalizing n with
  | nil => exact ⟨[], [], [], by simp [encode], rfl, by simp⟩
  | cons c s ih =>
    obtain ⟨b, l, hbytes, htails⟩ := tails_of_encodeChar c
    rw [encode_cons, hbytes] at hn ⊢
    rcases Nat.lt_or_ge l.length n with hlt | hge
    · -- the whole character is cut off
      have hsplit : (b :: l ++ encode s).drop n = (encode s).drop (n - (l.length + 1)) := by
        rw [List.drop_append, List.drop_eq_nil_of_le (by rw [List.length_cons]; omega),
          List.nil_append, List.length_cons]
      rw [List.length_append, List.length_cons] at hn
      have hrest : n - (l.length + 1) ≤ (encode s).length := by omega
      obtain ⟨t, u, v, hdrop, hs, ht⟩ := ih hrest
      exact ⟨t, c :: u, v, hsplit.trans hdrop, by rw [hs, List.cons_append], ht⟩
    cases n with
    | zero =>
      refine ⟨[], [], c :: s, ?_, rfl, by simp⟩
      rw [List.drop_zero, List.nil_append, encode_cons, hbytes]
    | succ n =>
      refine ⟨l.drop n, [c], s, ?_, rfl, fun x hx => htails x (List.mem_of_mem_drop hx)⟩
      rw [List.cons_append, List.drop_succ_cons, List.drop_append_of_le_length (by omega)]

end Text.Utf8
