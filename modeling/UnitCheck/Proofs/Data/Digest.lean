import UnitCheck.Data.Digest
import Mathlib.Tactic.Common

/-!
# Digests as text

Hexadecimal digits can be read back, so the text of a digest tells it apart from all others, and a
digest of the right size is parsed from its text (`Digest.parse_toText`). Besides these texts only
the empty one and the same digits in upper case are parsed; a text that goes on for 66 digits is not
even refused (`Digest.parse_outcomes`).
-/

namespace UnitCheck

open List

namespace Hex

theorem value?_digit {n : Nat} (h : n < 16) : value? (digit n) = some n := by
  have hall : ∀ n < 16, value? (digit n) = some n := by decide
  exact hall n h

theorem decode_flatMap_ofByte {bs : List UInt8} {room : Nat} (h : bs.length ≤ room) :
    decode (bs.flatMap ofByte) room = .ok bs := by
  induction bs generalizing room with
  | nil => rfl
  | cons b bs ih =>
    obtain _ | room := room
    · cases h
    have hb := b.toNat_lt
    have hhigh := value?_digit (n := b.toNat / 16) (by omega)
    have hlow := value?_digit (n := b.toNat % 16) (by omega)
    have hbyte : .ofNat (b.toNat / 16 * 16 + b.toNat % 16) = b := by
      rw [Nat.div_add_mod', UInt8.ofNat_toNat]
    simp only [flatMap_cons, ofByte, cons_append, nil_append, decode, hhigh, hlow,
      ih (Nat.le_of_succ_le_succ h), hbyte]
    rfl

theorem encode_injective {bs cs : List UInt8} (h : encode bs = encode cs) : bs = cs := by
  have hdecoded : decode (bs.flatMap ofByte) (bs.length + cs.length) =
      decode (cs.flatMap ofByte) (bs.length + cs.length) :=
    congrArg (fun t : Text => decode t.bytes _) h
  rw [decode_flatMap_ofByte (Nat.le_add_right ..), decode_flatMap_ofByte (Nat.le_add_left ..)]
    at hdecoded
  exact Except.ok.inj hdecoded

theorem length_encode (bs : List UInt8) : (encode bs).bytes.length = 2 * bs.length := by
  induction bs with
  | nil => rfl
  | cons b bs ih =>
    have hcons : (encode (b :: bs)).bytes = ofByte b ++ (encode bs).bytes := rfl
    rw [hcons, length_append, length_cons, ofByte, length_cons, length_singleton]
    omega

theorem isSome_value?_of_mem {bs : List UInt8} {x : UInt8} (h : x ∈ (encode bs).bytes) :
    (value? x).isSome = true := by
  obtain ⟨b, -, hx⟩ := mem_flatMap.1 h
  have hb := b.toNat_lt
  rcases mem_cons.1 hx with rfl | hx
  · rw [value?_digit (by omega)]
    rfl
  · rw [mem_singleton.1 hx, value?_digit (by omega)]
    rfl

/-- A hexadecimal digit, in either case. -/
def IsDigit (b : UInt8) : Prop := 48 ≤ b ∧ b ≤ 57 ∨ 97 ≤ b ∧ b ≤ 102 ∨ 65 ≤ b ∧ b ≤ 70

instance (b : UInt8) : Decidable (IsDigit b) := inferInstanceAs (Decidable (_ ∨ _))

def lowerDigit (b : UInt8) : UInt8 := if 65 ≤ b ∧ b ≤ 70 then b + 32 else b

theorem isSome_value?_iff {b : UInt8} : (value? b).isSome = true ↔ IsDigit b := by
  unfold value? IsDigit
  grind

theorem isDigit_of_value? {b : UInt8} {x : Nat} (h : value? b = some x) : IsDigit b :=
  isSome_value?_iff.1 (Option.isSome_of_eq_some h)

theorem ofByte_of_value? {a b : UInt8} {x y : Nat} (ha : value? a = some x)
    (hb : value? b = some y) :
    ofByte (UInt8.ofNat (x * 16 + y)) = [lowerDigit a, lowerDigit b] := by
  have hall : ∀ k < 256, ∀ n ∈ value? (.ofNat k),
      n < 16 ∧ digit n = lowerDigit (.ofNat k) := by decide +kernel
  have hdigit {c : UInt8} {n : Nat} (h : value? c = some n) : n < 16 ∧ digit n = lowerDigit c := by
    simpa using hall c.toNat c.toNat_lt n (by simpa using h)
  have hx := (hdigit ha).1
  have hy := (hdigit hb).1
  have hhigh : (x * 16 + y) / 16 = x := by omega
  have hlow : (x * 16 + y) % 16 = y := by omega
  rw [ofByte, UInt8.toNat_ofNat_of_lt' (by rw [UInt8.size]; omega), hhigh, hlow, (hdigit ha).2,
    (hdigit hb).2]

/-- What is read is written as the digits it was read from, in lower case. -/
theorem flatMap_ofByte_of_decode {room : Nat} {bs cs : List UInt8} (h : decode bs room = .ok cs) :
    (∀ b ∈ bs, IsDigit b) ∧ cs.flatMap ofByte = bs.map lowerDigit := by
  fun_induction decode bs room generalizing cs with
  | case1 => cases h; simp
  | case2 | case3 | case4 | case5 | case6 => cases h
  | case7 a b rest x y room hb ha ih =>
    cases hrest : decode rest room with
    | error e =>
      rw [hrest] at h
      cases h
    | ok ds =>
      rw [hrest] at h
      cases h
      obtain ⟨hdigits, hwritten⟩ := ih hrest
      have hada := isDigit_of_value? ha
      have hbdb := isDigit_of_value? hb
      refine ⟨by simpa [hada, hbdb] using hdigits, ?_⟩
      rw [flatMap_cons, ofByte_of_value? ha hb, hwritten]
      rfl

theorem exists_decode (room : Nat) {bs : List UInt8} (h : ∀ b ∈ bs, IsDigit b)
    (heven : bs.length % 2 = 0) (hroom : bs.length ≤ 2 * room) : ∃ cs, decode bs room = .ok cs := by
  fun_induction decode bs room with
  | case1 => exact ⟨[], rfl⟩
  | case2 | case3 => cases heven
  | case4 a b rest _ ha =>
    have := isSome_value?_iff.2 (h a mem_cons_self)
    rw [ha] at this
    cases this
  | case5 a b rest _ x hb ha =>
    have := isSome_value?_iff.2 (h b (by simp))
    rw [hb] at this
    cases this
  | case6 => simp at hroom
  | case7 a b rest x y room hb ha ih =>
    simp only [length_cons] at heven hroom
    obtain ⟨cs, hcs⟩ := ih (fun c hc => h c (by simp [hc])) (by omega) (by omega)
    exact ⟨_, by rw [hcs]; rfl⟩

/-- Reading overflows at the first pair of digits that there is no room for. -/
theorem decode_eq_overflow_iff (room : Nat) {bs : List UInt8} : decode bs room = .error .overflow ↔
    2 * room + 2 ≤ bs.length ∧ ∀ b ∈ bs.take (2 * room + 2), IsDigit b := by
  fun_induction decode bs room with
  | case1 => simp
  | case2 | case3 => simp
  | case4 a b rest _ ha =>
    have hno : ¬ IsDigit a := by simp [← isSome_value?_iff, ha]
    exact iff_of_false nofun fun h => hno (h.2 a (by simp))
  | case5 a b rest _ x hb ha =>
    have hno : ¬ IsDigit b := by simp [← isSome_value?_iff, hb]
    exact iff_of_false nofun fun h => hno (h.2 b (by simp))
  | case6 a b rest x y hb ha =>
    have hada := isDigit_of_value? ha
    have hbdb := isDigit_of_value? hb
    exact iff_of_true rfl ⟨by simp, by simp [hada, hbdb]⟩
  | case7 a b rest x y room hb ha ih =>
    have hada := isDigit_of_value? ha
    have hbdb := isDigit_of_value? hb
    have hmap : ((UInt8.ofNat (x * 16 + y) :: ·) <$> decode rest room) = .error .overflow ↔
        decode rest room = .error .overflow := by
      cases decode rest room <;> simp [Functor.map, Except.map]
    rw [hmap, ih, Nat.mul_succ, length_cons, length_cons, take_succ_cons, take_succ_cons]
    simp [hada, hbdb]

theorem length_of_decode {room : Nat} {bs cs : List UInt8} (h : decode bs room = .ok cs) :
    bs.length = 2 * cs.length := by
  rw [← length_encode, encode, (flatMap_ofByte_of_decode h).2, length_map]

end Hex

namespace Digest

theorem isEmpty_iff_eq_empty {t : Text} : t.isEmpty = true ↔ t = .empty := by
  rw [Text.isEmpty, List.isEmpty_iff]
  exact ⟨congrArg Text.mk, congrArg Text.bytes⟩

theorem parse_eq_ok_iff {t : Text} {d : Digest} : parse t = .ok d ↔
    t = .empty ∧ d = .zero ∨ Hex.decode t.bytes size = .ok d.bytes ∧ d.bytes.length = size := by
  unfold parse
  constructor
  · intro h
    split at h
    next hempty => exact .inl ⟨isEmpty_iff_eq_empty.1 hempty, (Except.ok.inj h).symm⟩
    next =>
      split at h
      · cases h
      next hdecode =>
        split at h
        next hsize =>
          cases h
          exact .inr ⟨hdecode, hsize⟩
        next => cases h
  · rintro (⟨rfl, rfl⟩ | ⟨hdecode, hsize⟩)
    · rfl
    · have hlength : t.size = 64 := by
        rw [Text.size, Hex.length_of_decode hdecode, hsize]
        rfl
      have hne : ¬ t.isEmpty = true := fun h => by
        rw [isEmpty_iff_eq_empty.1 h] at hlength
        cases hlength
      rw [if_neg hne, hdecode]
      exact if_pos hsize

theorem parse_eq_overflow_iff {t : Text} : parse t = .error (.digits .overflow) ↔
    66 ≤ t.size ∧ ∀ b ∈ t.bytes.take 66, Hex.IsDigit b := by
  refine Iff.trans ?_ (Hex.decode_eq_overflow_iff size)
  unfold parse
  split
  next hempty =>
    rw [isEmpty_iff_eq_empty.1 hempty]
    exact iff_of_false nofun nofun
  next =>
    split
    next e hdecode => rw [hdecode]; simp
    next hdecode =>
      rw [hdecode]
      split <;> exact iff_of_false nofun nofun

theorem Error.eq_overflow {e : Error} (h : e.message = none) : e = .digits .overflow := by
  cases e with
  | digits e =>
    cases e with
    | badByte | oddLength => cases h
    | overflow => rfl
  | length => cases h

theorem parse_toText {d : Digest} (h : d.bytes.length = size) : parse d.toText = .ok d :=
  parse_eq_ok_iff.2 (.inr ⟨Hex.decode_flatMap_ofByte (Nat.le_of_eq h), h⟩)

/-- What becomes of a text: when it is a digest, which one it is, and when there is no error to
tell. -/
theorem parse_outcomes (t : Text) :
    ((∃ d, parse t = .ok d) ↔ t = .empty ∨ t.size = 64 ∧ ∀ b ∈ t.bytes, Hex.IsDigit b) ∧
    (∀ d, parse t = .ok d → t = .empty ∧ d = .zero ∨
      d.bytes.length = size ∧ d.toText.bytes = t.bytes.map Hex.lowerDigit) ∧
    ((∃ e, parse t = .error e ∧ e.message = none) ↔
      66 ≤ t.size ∧ ∀ b ∈ t.bytes.take 66, Hex.IsDigit b) ∧
    ∀ d : Digest, d.bytes.length = size → parse d.toText = .ok d := by
  refine ⟨⟨?_, ?_⟩, fun d hd => ?_, ⟨?_, fun h => ⟨_, parse_eq_overflow_iff.2 h, rfl⟩⟩,
    fun _ => parse_toText⟩
  · rintro ⟨d, hd⟩
    obtain ⟨hempty, -⟩ | ⟨hdecode, hsize⟩ := parse_eq_ok_iff.1 hd
    · exact .inl hempty
    · exact .inr ⟨by rw [Text.size, Hex.length_of_decode hdecode, hsize]; rfl,
        (Hex.flatMap_ofByte_of_decode hdecode).1⟩
  · rintro (rfl | ⟨hsize, hdigits⟩)
    · exact ⟨.zero, rfl⟩
    · rw [Text.size] at hsize
      obtain ⟨cs, hcs⟩ := Hex.exists_decode size hdigits (by omega) (Nat.le_of_eq hsize)
      have hlength := Hex.length_of_decode hcs
      exact ⟨⟨cs⟩, parse_eq_ok_iff.2 (.inr ⟨hcs, by dsimp only [size]; omega⟩)⟩
  · obtain hzero | ⟨hdecode, hsize⟩ := parse_eq_ok_iff.1 hd
    · exact .inl hzero
    · exact .inr ⟨hsize, (Hex.flatMap_ofByte_of_decode hdecode).2⟩
  · rintro ⟨e, he, hmessage⟩
    rw [Error.eq_overflow hmessage] at he
    exact parse_eq_overflow_iff.1 he

/-- A digest in upper case, and the digest of which every byte is 171. -/
theorem parse_outcomes_upper :
    (∃ d, parse ⟨List.replicate 64 0x41⟩ = .ok d) ∧
      parse (Digest.toText ⟨List.replicate 32 171⟩) = .ok ⟨List.replicate 32 171⟩ :=
  ⟨(parse_outcomes ⟨List.replicate 64 0x41⟩).1.2 (.inr ⟨by decide, by decide +kernel⟩),
    (parse_outcomes .empty).2.2.2 _ (by decide)⟩

/-- Two digits more than a digest has are too many to be refused. -/
theorem parse_too_long : parse ⟨List.replicate 66 0x30⟩ = .error (.digits .overflow) ∧
    Error.message (.digits .overflow) = none :=
  ⟨by decide +kernel, rfl⟩

end Digest

end UnitCheck
