import UnitCheck.Data.Pack
import Mathlib.Algebra.Group.Nat.Defs

/-!
# Packed values are read back

A packed value `Fits` if its sizes and numbers fit into the widest headers that there are. Then
reading its bytes gives it back, together with the bytes that follow it (`Pack.decode?_encode`).

Numbers and headers come first. The value itself is read by one induction over its structure; what
carries it is that the bytes of a value leave fuel enough for all values inside of it, because every
value takes a byte at least.
-/

namespace UnitCheck.Pack

open List Option Nat

/-! ## Numbers -/

theorem length_bigEndian (n width : Nat) : (bigEndian n width).length = width := by
  induction width with
  | zero => rfl
  | succ width ih => simp [bigEndian, ih]

theorem foldl_bigEndian (n width acc : Nat) :
    (bigEndian n width).foldl (fun n b => n * 256 + b.toNat) acc =
      acc * 256 ^ width + n % 256 ^ width := by
  induction width generalizing acc with
  | zero => simp [bigEndian, mod_one]
  | succ width ih =>
    have hbyte : (UInt8.ofNat (n / .pow 256 width)).toNat = n / 256 ^ width % 256 := by simp
    have hsplit : n % 256 ^ (width + 1) =
      n / 256 ^ width % 256 * 256 ^ width + n % 256 ^ width := by
      rw [pow_succ, mod_mul, add_comm, mul_comm]
    rw [bigEndian, foldl_cons, ih, hbyte, hsplit, Nat.add_mul, Nat.pow_succ',
      mul_assoc acc, add_assoc]

variable {n w : Nat} {es : List (Pack × Pack)} {p : Pack}

theorem readNumber_bigEndian {width : Nat} (h : n < 256 ^ width) (rest : List UInt8) :
    readNumber width (bigEndian n width ++ rest) = some (n, rest) := by
  have hlength := length_bigEndian n width
  have hnumber := foldl_bigEndian n width 0
  rw [Nat.zero_mul, Nat.zero_add, Nat.mod_eq_of_lt h] at hnumber
  unfold readNumber
  rw [if_neg (by simp [hlength]), take_left' hlength, drop_left' hlength, hnumber]

theorem readBytes_append (bs rest : List UInt8) :
    readBytes bs.length (bs ++ rest) = some (bs, rest) := by
  simp [readBytes]

/-! ## Values that fit -/

abbrev IsWidth (w : Nat) : Prop := w = 1 ∨ w = 2 ∨ w = 4 ∨ w = 8

mutual

/-- Sizes and numbers fit into their headers. Data of a foreign kind is never written. -/
def Fits : Pack → Prop
  | .nil | .bool _ => True
  | .small b => b.toNat < 0x80 ∨ 0xE0 ≤ b.toNat
  | .uint w n | .int w n => IsWidth w ∧ n < 256 ^ w
  | .float bs => bs.length = 4 ∨ bs.length = 8
  | .str t => t.size < 2 ^ 32
  | .bin bs => bs.length < 2 ^ 32
  | .list xs => xs.length < 2 ^ 32 ∧ FitsList xs
  | .map es => es.length < 2 ^ 32 ∧ FitsEntries es
  | .ext _ => False

def FitsList : List Pack → Prop
  | [] => True
  | x :: xs => Fits x ∧ FitsList xs

def FitsEntries : List (Pack × Pack) → Prop
  | [] => True
  | (k, v) :: es => (Fits k ∧ Fits v) ∧ FitsEntries es

end

mutual

instance Fits.instDecidable : (p : Pack) → Decidable p.Fits
  | .nil | .bool _ => .isTrue trivial
  | .small _ | .float _ => inferInstanceAs (Decidable (_ ∨ _))
  | .uint _ _ | .int _ _ => inferInstanceAs (Decidable (_ ∧ _))
  | .str t => inferInstanceAs (Decidable (t.size < _))
  | .bin bs => inferInstanceAs (Decidable (bs.length < _))
  | .list xs => @instDecidableAnd _ _ _ (FitsList.instDecidable xs)
  | .map es => @instDecidableAnd _ _ _ (FitsEntries.instDecidable es)
  | .ext _ => .isFalse id

instance FitsList.instDecidable : (xs : List Pack) → Decidable (FitsList xs)
  | [] => .isTrue trivial
  | x :: xs => @instDecidableAnd _ _ (Fits.instDecidable x) (FitsList.instDecidable xs)

instance FitsEntries.instDecidable : (es : List (Pack × Pack)) → Decidable (FitsEntries es)
  | [] => .isTrue trivial
  | (k, v) :: es => @instDecidableAnd _ _
    (@instDecidableAnd _ _ (Fits.instDecidable k) (Fits.instDecidable v))
      (FitsEntries.instDecidable es)

end

theorem fitsList_iff {xs : List Pack} : FitsList xs ↔ ∀ x ∈ xs, Fits x := by
  induction xs with
  | nil => simp [FitsList]
  | cons x xs ih => simp [FitsList, ih]

theorem fitsEntries_iff : FitsEntries es ↔ ∀ e ∈ es, Fits e.1 ∧ Fits e.2 := by
  induction es with
  | nil => simp [FitsEntries]
  | cons e es ih => simp [FitsEntries, ih]

/-! ## Depth -/

theorem depth_pos (p : Pack) : 0 < p.depth := by
  cases p <;> simp [depth]

theorem depth_le_depthEntries {e : Pack × Pack} (h : e ∈ es) : e.2.depth ≤ depthEntries es := by
  induction es with
  | nil => cases h
  | cons x es ih =>
    rcases mem_cons.1 h with rfl | h
    · exact Nat.le_max_left ..
    · exact Nat.le_trans (ih h) (Nat.le_max_right ..)

/-! ## Headers -/

/-- A header is read if each of its forms is: `f` goes on with the size and the bytes behind it. -/
theorem read_header {fuel small limit : Nat} {code8 code16 code32 : UInt8}
    {f : Nat → List UInt8 → Option (Pack × List UInt8)}
    (hsmall : ∀ n bs, n < limit → read (fuel + 1) (UInt8.ofNat (small + n) :: bs) = f n bs)
    (h8 : ∀ bs, code8 ≠ 0 →
      read (fuel + 1) (code8 :: bs) = (readNumber 1 bs).bind fun (n, r) => f n r)
    (h16 : ∀ bs, read (fuel + 1) (code16 :: bs) = (readNumber 2 bs).bind fun (n, r) => f n r)
    (h32 : ∀ bs, read (fuel + 1) (code32 :: bs) = (readNumber 4 bs).bind fun (n, r) => f n r)
    (hn : n < 2 ^ 32) (rest : List UInt8) :
    read (fuel + 1) (header small limit code8 code16 code32 n ++ rest) = f n rest := by
  unfold header
  split
  next h => exact hsmall n rest h
  next =>
    split
    next h =>
      rw [cons_append, h8 _ h.2, readNumber_bigEndian h.1, bind_some]
    next =>
      split
      next h => rw [cons_append, h16, readNumber_bigEndian h, bind_some]
      next => rw [cons_append, h32, readNumber_bigEndian hn, bind_some]

theorem length_header_pos (small limit : Nat) (code8 code16 code32 : UInt8) (n : Nat) :
    0 < (header small limit code8 code16 code32 n).length := by
  unfold header
  split
  · simp
  · split
    · simp
    · split <;> simp

theorem Header.ofByte_map (h : n < 16) : Header.ofByte (UInt8.ofNat (0x80 + n)) = .map n := by
  have hbyte := UInt8.toNat_ofNat_of_lt' (show 0x80 + n < 256 by omega)
  simp only [Header.ofByte, hbyte]
  rw [if_neg (by omega), if_pos (by omega), Nat.add_sub_cancel_left]

theorem Header.ofByte_list (h : n < 16) : Header.ofByte (UInt8.ofNat (0x90 + n)) = .list n := by
  have hbyte := UInt8.toNat_ofNat_of_lt' (show 0x90 + n < 256 by omega)
  simp only [Header.ofByte, hbyte]
  rw [if_neg (by omega), if_neg (by omega), if_pos (by omega), Nat.add_sub_cancel_left]

theorem Header.ofByte_str (h : n < 32) : Header.ofByte (UInt8.ofNat (0xA0 + n)) = .str n := by
  have hbyte := UInt8.toNat_ofNat_of_lt' (show 0xA0 + n < 256 by omega)
  simp only [Header.ofByte, hbyte]
  rw [if_neg (by omega), if_neg (by omega), if_neg (by omega), if_pos (by omega),
    Nat.add_sub_cancel_left]

variable {fuel n : Nat}

section

variable (hn : n < 2 ^ 32) (rest : List UInt8)
include hn rest

theorem read_strHeader : read (fuel + 1) (strHeader n ++ rest) =
      (readBytes n rest).bind fun (x, r) => some (.str ⟨x⟩, r) := by
  refine read_header (f := fun n bs => (readBytes n bs).bind fun (x, r) => some (.str ⟨x⟩, r))
    (fun n bs h => ?_) (fun _ _ => rfl) (fun _ => rfl) (fun _ => rfl) hn rest
  simp only [read, Header.ofByte_str h, map_eq_bind]
  rfl

theorem read_binHeader :
    read (fuel + 1) (binHeader n ++ rest) = (readBytes n rest).bind fun (x, r) =>
      some (.bin x, r) :=
  read_header (f := fun n bs => (readBytes n bs).bind fun (x, r) => some (.bin x, r))
    (fun _ _ h => absurd h (not_lt_zero _)) (fun _ _ => rfl) (fun _ => rfl) (fun _ => rfl) hn rest

theorem read_listHeader : read (fuel + 1) (listHeader n ++ rest) =
      (readList fuel n rest).bind fun (xs, r) => some (.list xs, r) := by
  refine read_header (f := fun n bs => (readList fuel n bs).bind fun (xs, r) => some (.list xs, r))
    (fun n bs h => ?_) (fun _ h => absurd rfl h) (fun _ => rfl) (fun _ => rfl) hn rest
  simp only [read, Header.ofByte_list h, map_eq_bind]
  rfl

theorem read_mapHeader : read (fuel + 1) (mapHeader n ++ rest) =
      (readEntries fuel n rest).bind fun (es, r) => some (.map es, r) := by
  refine read_header (f := fun n bs => (readEntries fuel n bs).bind fun (es, r) =>
    some (.map es, r))
    (fun n bs h => ?_) (fun _ h => absurd rfl h) (fun _ => rfl) (fun _ => rfl) hn rest
  simp only [read, Header.ofByte_map h, map_eq_bind]
  rfl

end

/-! ## Values -/

theorem read_small {b : UInt8} (h : Fits (.small b)) (rest : List UInt8) :
    read (fuel + 1) (b :: rest) = some (.small b, rest) := by
  have hheader : Header.ofByte b = .value (.small b) := if_pos h
  simp only [read, hheader]

theorem read_uint (h : Fits (.uint w n)) (rest : List UInt8) :
    read (fuel + 1) (encode (.uint w n) ++ rest) = some (.uint w n, rest) := by
  obtain ⟨hw, hn⟩ := h
  have hheader : Header.ofByte (uintCode w) = .uint w := by
    obtain rfl | rfl | rfl | rfl := hw <;> rfl
  simp only [encode, cons_append, read, hheader, readNumber_bigEndian hn, map_some]

theorem read_int (h : Fits (.int w n)) (rest : List UInt8) :
    read (fuel + 1) (encode (.int w n) ++ rest) = some (.int w n, rest) := by
  obtain ⟨hw, hn⟩ := h
  have hheader : Header.ofByte (intCode w) = .int w := by
    obtain rfl | rfl | rfl | rfl := hw <;> rfl
  simp only [encode, cons_append, read, hheader, readNumber_bigEndian hn, map_some]

theorem read_float {bs : List UInt8} (h : Fits (.float bs)) (rest : List UInt8) :
    read (fuel + 1) (encode (.float bs) ++ rest) = some (.float bs, rest) := by
  have hheader : Header.ofByte (if bs.length = 4 then 0xCA else 0xCB) = .float bs.length := by
    obtain h | h := h <;> rw [h] <;> rfl
  simp only [encode, cons_append, read, hheader, readBytes_append, map_some]

theorem length_encode_pos (h : p.Fits) : 0 < (encode p).length := by
  cases p with
  | nil | small | uint | int | float => simp [encode]
  | bool b => cases b <;> simp [encode]
  | str | bin | list | map =>
    simp only [encode, length_append]
    exact Nat.add_pos_left (length_header_pos ..) _
  | ext => exact h.elim

mutual

/-- Fuel for two values a byte is enough. -/
theorem read_encode : ∀ (p : Pack), p.Fits → ∀ {fuel : Nat}, 2 * (encode p).length ≤ fuel →
    ∀ rest, read fuel (encode p ++ rest) = some (p, rest)
  | p, h, 0, hfuel, rest => by
    have hpos := length_encode_pos h
    omega
  | .nil, _, _ + 1, _, _ => rfl
  | .bool false, _, _ + 1, _, _ => rfl
  | .bool true, _, _ + 1, _, _ => rfl
  | .small _, h, _ + 1, _, rest => read_small h rest
  | .uint _ _, h, _ + 1, _, rest => read_uint h rest
  | .int _ _, h, _ + 1, _, rest => read_int h rest
  | .float _, h, _ + 1, _, rest => read_float h rest
  | .str t, h, _ + 1, _, rest => by
    simp only [encode, append_assoc]
    rw [read_strHeader h, Text.size, readBytes_append, bind_some]
  | .bin bs, h, _ + 1, _, rest => by
    simp only [encode, append_assoc]
    rw [read_binHeader h, readBytes_append, bind_some]
  | .list xs, h, fuel + 1, hfuel, rest => by
    have hpos : 0 < (listHeader xs.length).length := length_header_pos ..
    simp only [encode, length_append] at hfuel
    simp only [encode, append_assoc]
    rw [read_listHeader h.1, readList_encodeList xs h.2 (by omega), bind_some]
  | .map es, h, fuel + 1, hfuel, rest => by
    have hpos : 0 < (mapHeader es.length).length := length_header_pos ..
    simp only [encode, length_append] at hfuel
    simp only [encode, append_assoc]
    rw [read_mapHeader h.1, readEntries_encodeEntries es h.2 (by omega), bind_some]

theorem readList_encodeList : ∀ (xs : List Pack), FitsList xs →
    ∀ {fuel : Nat}, 2 * (encodeList xs).length + 1 ≤ fuel →
    ∀ {rest}, readList fuel xs.length (encodeList xs ++ rest) = some (xs, rest)
  | xs, _, 0, hfuel, rest => by omega
  | [], _, _ + 1, _, _ => rfl
  | x :: xs, h, fuel + 1, hfuel, rest => by
    have hpos := length_encode_pos h.1
    simp only [encodeList, length_append] at hfuel
    simp only [encodeList, length_cons, append_assoc, readList]
    rw [read_encode x h.1 (by omega)]
    simp only [bind_eq_bind, bind_some]
    rw [readList_encodeList xs h.2 (by omega)]
    rfl

theorem readEntries_encodeEntries : ∀ (es : List (Pack × Pack)), FitsEntries es →
    ∀ {fuel : Nat}, 2 * (encodeEntries es).length + 1 ≤ fuel →
    ∀ {rest}, readEntries fuel es.length (encodeEntries es ++ rest) = some (es, rest)
  | es, _, 0, hfuel, rest => by omega
  | [], _, _ + 1, _, _ => rfl
  | (k, v) :: es, h, fuel + 1, hfuel, rest => by
    have hk := length_encode_pos h.1.1
    have hv := length_encode_pos h.1.2
    simp only [encodeEntries, length_append] at hfuel
    simp only [encodeEntries, length_cons, append_assoc, readEntries]
    rw [read_encode k h.1.1 (by omega)]
    simp only [bind_eq_bind, bind_some]
    rw [read_encode v h.1.2 (by omega)]
    simp only [bind_some]
    rw [readEntries_encodeEntries es h.2 (by omega)]
    rfl

end

theorem decode?_encode (h : p.Fits) (rest : List UInt8) :
    decode? (encode p ++ rest) = some (p, rest) :=
  read_encode p h (by simp only [length_append]; omega) rest

end UnitCheck.Pack
