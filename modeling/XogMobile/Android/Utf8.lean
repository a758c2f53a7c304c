import Mathlib.Data.List.Basic

/-!
# Reading a text back

`saveCachedRawgGameInfo` writes a record as the UTF-8 bytes of its JSON text, and `loadCachedRawgGameInfo`
reads it with `readUtf8`, which makes a string of every chunk that `stream.read` returns and appends them.
`decode` is the platform's decoder. A character cut by the end of a chunk is lost: the text is the
decoding of all the bytes only where no chunk ends in one.
-/

namespace XogMobile.Android.Utf8

open List

/-- A character some bytes of which have been read: its bits so far, the bounds of the next byte, and how
many bytes come after that one. -/
structure Pending where
  (code lower upper more : Nat)
  le_lower : 0x80 ≤ lower := by grind
  upper_le : upper ≤ 0xBF := by grind

def replacement : Char := Char.ofNat 0xFFFD

/-- A byte between characters. The bounds of the second byte exclude longer forms, surrogates and what lies
above the last code point. -/
def leadByte (b : Nat) : List Char × Option Pending :=
  if b < 0x80 then ([Char.ofNat b], none)
  else if b < 0xC2 then ([replacement], none)
  else if b < 0xE0 then ([], some { code := b - 0xC0, lower := 0x80, upper := 0xBF, more := 0 })
  else if b < 0xF0 then
    ([], some { code := b - 0xE0, lower := if b = 0xE0 then 0xA0 else 0x80,
                upper := if b = 0xED then 0x9F else 0xBF, more := 1 })
  else if b < 0xF5 then
    ([], some { code := b - 0xF0, lower := if b = 0xF0 then 0x90 else 0x80,
                upper := if b = 0xF4 then 0x8F else 0xBF, more := 2 })
  else ([replacement], none)

def Pending.Continues (p : Pending) (b : Nat) : Prop := p.lower ≤ b ∧ b ≤ p.upper

instance (p : Pending) (b : Nat) : Decidable (p.Continues b) := instDecidableAnd

def Pending.next (p : Pending) (b : Nat) : List Char × Option Pending :=
  let code := p.code * 64 + b % 64
  match p.more with
  | 0 => ([Char.ofNat code], none)
  | more + 1 => ([], some { code, lower := 0x80, upper := 0xBF, more })

/-- A byte that does not continue the character ends it and is looked at again. -/
def decodeByte : Option Pending → Nat → List Char × Option Pending
  | none, b => leadByte b
  | some p, b =>
    if p.Continues b then p.next b else (replacement :: (leadByte b).1, (leadByte b).2)

def decodeFrom : Option Pending → List UInt8 → List Char
  | s, [] => if s.isSome then [replacement] else []
  | s, b :: bs => (decodeByte s b.toNat).1 ++ decodeFrom (decodeByte s b.toNat).2 bs

def endState (s : Option Pending) (bs : List UInt8) : Option Pending :=
  bs.foldl (fun s b => (decodeByte s b.toNat).2) s

/-- `new String(bytes, 0, read, UTF_8)`. -/
def decode : List UInt8 → List Char := decodeFrom none

/-- The loop over what `stream.read` returns, up to the end of the stream. -/
def readUtf8 (chunks : List (List UInt8)) : List Char := chunks.flatMap decode

/-- No chunk ends in a character that the next byte of the stream continues. -/
def Whole : List (List UInt8) → Prop
  | [] => True
  | chunk :: chunks =>
    (∀ p ∈ endState none chunk, ∀ b ∈ chunks.flatten.head?, ¬p.Continues b.toNat) ∧ Whole chunks

variable {p : Pending} {b : UInt8} {bs : List UInt8}

theorem Pending.Continues.leadByte_eq (h : p.Continues b.toNat) : leadByte b.toNat = ([replacement], none) := by
  have hbounds := And.intro p.le_lower p.upper_le
  obtain ⟨hlower, hupper⟩ := h
  rw [leadByte, if_neg (by omega), if_pos (by omega)]

theorem decodeFrom_of_not_continues {s : Option Pending} (h : ∀ p ∈ s, ∀ b ∈ bs.head?, ¬p.Continues b.toNat) :
    decodeFrom s bs = decodeFrom s [] ++ decode bs := by
  cases s with
  | none => rfl
  | some p =>
    cases bs with
    | nil => rfl
    | cons b bs =>
      simp only [decodeFrom, decodeByte, if_neg (h p rfl b rfl)]
      rfl

/-- A character to be completed adds at most its replacement to the text, and nothing where the next byte
continues it: that byte alone is replaced as well. -/
theorem length_decodeFrom_le (p : Pending) (bs : List UInt8) :
    (decodeFrom (some p) bs).length ≤ (decode bs).length + 1 ∧
      ∀ b ∈ bs.head?, p.Continues b.toNat → (decodeFrom (some p) bs).length ≤ (decode bs).length := by
  induction bs generalizing p with
  | nil => exact ⟨Nat.le_refl _, nofun⟩
  | cons b bs ih =>
    by_cases h : p.Continues b.toNat
    · have hle : (decodeFrom (some p) (b :: bs)).length ≤ (decode (b :: bs)).length := by
        simp only [decode, decodeFrom, decodeByte, if_pos h, h.leadByte_eq, Pending.next]
        cases p.more with
        | zero => exact Nat.le_refl _
        | succ more => exact (ih _).1
      exact ⟨Nat.le_succ_of_le hle, fun _ _ _ => hle⟩
    · rw [decodeFrom_of_not_continues (by rintro _ ⟨⟩ _ ⟨⟩; exact h)]
      exact ⟨Nat.le_refl _, by rintro _ ⟨⟩ hb; exact absurd hb h⟩

theorem decodeFrom_append (s : Option Pending) (bs : List UInt8) :
    ∃ text, ∀ rest, decodeFrom s (bs ++ rest) = text ++ decodeFrom (endState s bs) rest := by
  induction bs generalizing s with
  | nil => exact ⟨[], fun _ => rfl⟩
  | cons b bs ih =>
    obtain ⟨text, htext⟩ := ih (decodeByte s b.toNat).2
    refine ⟨(decodeByte s b.toNat).1 ++ text, fun rest => ?_⟩
    rw [cons_append, decodeFrom, htext, append_assoc]
    rfl

/-- A chunk that ends in a character the stream goes on with adds a character to the text. -/
theorem readUtf8_or (chunks : List (List UInt8)) : Whole chunks ∧ readUtf8 chunks = decode chunks.flatten ∨
      ¬Whole chunks ∧ (decode chunks.flatten).length < (readUtf8 chunks).length := by
  induction chunks with
  | nil => exact .inl ⟨trivial, rfl⟩
  | cons chunk chunks ih =>
    obtain ⟨text, htext⟩ := decodeFrom_append none chunk
    have hread : readUtf8 (chunk :: chunks) = text ++ (decodeFrom (endState none chunk) [] ++ readUtf8 chunks) := by
      rw [readUtf8, flatMap_cons, decode, ← append_nil chunk, htext, append_nil, append_assoc]
      rfl
    rw [hread, flatten_cons, decode, htext, Whole]
    by_cases hcut : ∀ p ∈ endState none chunk, ∀ b ∈ chunks.flatten.head?, ¬p.Continues b.toNat
    · rw [decodeFrom_of_not_continues hcut]
      refine ih.imp (fun h => ⟨⟨hcut, h.1⟩, by rw [h.2]⟩) fun h => ⟨fun hw => h.1 hw.2, ?_⟩
      simpa only [length_append, Nat.add_lt_add_iff_left] using h.2
    · obtain ⟨p, hp, b, hb, hcont⟩ : ∃ p ∈ endState none chunk, ∃ b ∈ chunks.flatten.head?,
          p.Continues b.toNat := by simpa using hcut
      have hle := (length_decodeFrom_le p _).2 b hb hcont
      have hrest : (decode chunks.flatten).length ≤ (readUtf8 chunks).length :=
        ih.elim (fun h => h.2 ▸ Nat.le_refl _) fun h => Nat.le_of_lt h.2
      rw [hp, length_append, length_append, length_append]
      refine .inr ⟨fun hw => hw.1 p rfl b hb hcont, Nat.add_lt_add_left ?_ _⟩
      exact Nat.lt_of_le_of_lt (Nat.le_trans hle hrest) (Nat.lt_add_of_pos_left Nat.one_pos)

theorem readUtf8_eq_decode_iff (chunks : List (List UInt8)) :
    readUtf8 chunks = decode chunks.flatten ↔ Whole chunks := by
  rcases readUtf8_or chunks with ⟨hwhole, heq⟩ | ⟨hwhole, hlt⟩
  · exact iff_of_true heq hwhole
  · exact iff_of_false (fun heq => Nat.lt_irrefl _ (heq ▸ hlt)) hwhole

theorem decode_lead {b : Nat} (hb : b < 256) :
    decode (UInt8.ofNat b :: bs) = (leadByte b).1 ++ decodeFrom (leadByte b).2 bs := by
  rw [decode, decodeFrom, UInt8.toNat_ofNat', Nat.mod_eq_of_lt hb]
  rfl

theorem decodeFrom_continue {b : Nat} (hb : p.Continues b) :
    decodeFrom (some p) (UInt8.ofNat b :: bs) = (p.next b).1 ++ decodeFrom (p.next b).2 bs := by
  have hlt : b < 2 ^ 8 := Nat.lt_of_le_of_lt (Nat.le_trans hb.2 p.upper_le) (by decide)
  rw [decodeFrom, UInt8.toNat_ofNat', Nat.mod_eq_of_lt hlt, decodeByte, if_pos hb]

theorem continues_tail (code more x : Nat) :
    Pending.Continues { code, lower := 0x80, upper := 0xBF, more } (x % 64 + 128) := by
  refine ⟨?_, ?_⟩ <;> dsimp only <;> omega

theorem decode_encodeChar (c : Char) (bs : List UInt8) : decode (String.utf8EncodeChar c ++ bs) = c :: decode bs := by
  have hvalid : c.val.toNat < 0xD800 ∨ 0xDFFF < c.val.toNat ∧ c.val.toNat < 0x110000 := c.valid
  have hchar : Char.ofNat c.val.toNat = c := Char.ofNat_toNat c
  dsimp only [String.utf8EncodeChar]
  generalize c.val.toNat = v at hvalid hchar
  subst hchar
  split_ifs <;> rw [cons_append, decode_lead (by omega), leadByte]
  · rw [if_pos (by omega)]
    rfl
  · rw [if_neg (by omega), if_neg (by omega), if_pos (by omega)]
    simp only [cons_append, nil_append, decodeFrom_continue (continues_tail _ _ _), Pending.next]
    exact congrArg (Char.ofNat · :: decode bs) (by omega)
  · rw [if_neg (by omega), if_neg (by omega), if_neg (by omega), if_pos (by omega)]
    simp only [cons_append, nil_append]
    rw [decodeFrom_continue ⟨by dsimp only; split_ifs <;> omega, by dsimp only; split_ifs <;> omega⟩]
    simp only [cons_append, nil_append, decodeFrom_continue (continues_tail _ _ _), Pending.next]
    exact congrArg (Char.ofNat · :: decode bs) (by omega)
  · rw [if_neg (by omega), if_neg (by omega), if_neg (by omega), if_neg (by omega), if_pos (by omega)]
    simp only [cons_append, nil_append]
    rw [decodeFrom_continue ⟨by dsimp only; split_ifs <;> omega, by dsimp only; split_ifs <;> omega⟩]
    simp only [cons_append, nil_append, decodeFrom_continue (continues_tail _ _ _), Pending.next]
    exact congrArg (Char.ofNat · :: decode bs) (by omega)

theorem decode_encode (text : List Char) : decode (text.flatMap String.utf8EncodeChar) = text := by
  induction text with
  | nil => rfl
  | cons c text ih => rw [flatMap_cons, decode_encodeChar, ih]

/-- Chunkwise decoding gives the text exactly when no chunk cuts a character. -/
theorem readUtf8_iff_whole (chunks : List (List UInt8)) :
    (readUtf8 chunks = decode chunks.flatten ↔ Whole chunks) ∧
      ∀ text : List Char, chunks.flatten = text.flatMap String.utf8EncodeChar →
        (readUtf8 chunks = text ↔ Whole chunks) := by
  refine ⟨readUtf8_eq_decode_iff chunks, fun text htext => ?_⟩
  rw [← readUtf8_eq_decode_iff, htext, decode_encode]

/-- A character of two bytes that are read one by one becomes two replacement characters. -/
theorem readUtf8_split :
    [[0xC3], [0xA9]].flatten = [Char.ofNat 0xE9].flatMap String.utf8EncodeChar ∧
      decode [[0xC3], [0xA9]].flatten = [Char.ofNat 0xE9] ∧
      readUtf8 [[0xC3], [0xA9]] = [replacement, replacement] ∧
      [replacement, replacement] ≠ [Char.ofNat 0xE9] := by decide

end XogMobile.Android.Utf8
