import DownloadWrapper.Utils.FileSystem
import Mathlib.Data.Bool.AllAny
import Mathlib.Data.List.Nodup
import Mathlib.Logic.Function.Basic
import Mathlib.Tactic.Ring

/-!
# Base64

The text in which bytes are handed over by hand. The encoder takes three bytes at a time. The decoder
shifts the six bits of every character into a 32-bit accumulator and takes a byte out whenever eight are
there, so that what it has read long ago is pushed out at the top.
-/

namespace DownloadWrapper.Base64

def byteOf (c : Char) : Byte := UInt8.ofNat c.toNat

def Skipped (c : Byte) : Prop := c = byteOf '=' ∨ c = byteOf '\n' ∨ c = byteOf '\r' ∨ c = byteOf ' '

instance : DecidablePred Skipped := fun _ => inferInstanceAs (Decidable (_ ∨ _ ∨ _ ∨ _))

structure Alphabet where
  chars : List Byte
  length_eq : chars.length = 64
  nodup : chars.Nodup
  notSkipped : ∀ c ∈ chars, ¬ Skipped c

def kAlphabet : Alphabet where
  chars := "ABCDEFGHIJKLMNOPQRSTUVWXYZabcdefghijklmnopqrstuvwxyz0123456789+/".toList.map byteOf
  length_eq := by decide
  nodup := by decide
  notSkipped := List.all_iff_forall_prop.mp (by decide)

def kUrlAlphabet : Alphabet where
  chars := "ABCDEFGHIJKLMNOPQRSTUVWXYZabcdefghijklmnopqrstuvwxyz0123456789-_".toList.map byteOf
  length_eq := by decide
  nodup := by decide
  notSkipped := List.all_iff_forall_prop.mp (by decide)

/-- `alphabet[k]`. -/
def Alphabet.char (alphabet : Alphabet) (k : UInt32) : Byte := alphabet.chars.getD k.toNat 0

/-- The value of every character; `0xFF` marks what is no character of the alphabet. -/
def buildDecodeTable (alphabet : Alphabet) : Byte → UInt8 :=
  (List.range 64).foldl
    (fun table i => Function.update table (alphabet.chars.getD i 0) (UInt8.ofNat i)) fun _ => 0xFF

def encodeImpl (alphabet : Alphabet) (pad : Bool) : List Byte → List Byte
  | a :: b :: c :: data =>
      let n := (a.toUInt32 <<< 16) ||| (b.toUInt32 <<< 8) ||| c.toUInt32
      alphabet.char ((n >>> 18) &&& 0x3F) :: alphabet.char ((n >>> 12) &&& 0x3F) ::
        alphabet.char ((n >>> 6) &&& 0x3F) :: alphabet.char (n &&& 0x3F) ::
        encodeImpl alphabet pad data
  | [a] =>
      let n := a.toUInt32 <<< 16
      alphabet.char ((n >>> 18) &&& 0x3F) :: alphabet.char ((n >>> 12) &&& 0x3F) ::
        if pad then [byteOf '=', byteOf '='] else []
  | [a, b] =>
      let n := (a.toUInt32 <<< 16) ||| (b.toUInt32 <<< 8)
      alphabet.char ((n >>> 18) &&& 0x3F) :: alphabet.char ((n >>> 12) &&& 0x3F) ::
        alphabet.char ((n >>> 6) &&& 0x3F) :: if pad then [byteOf '='] else []
  | [] => []

/-- The loop of `decode_impl`, from the characters that are left, the accumulator, the number of its bits
that no byte has been taken from, and the bytes so far. -/
def decodeLoop (table : Byte → UInt8) : List Byte → UInt32 → Nat → List Byte → List Byte
  | [], _, _, out => out
  | c :: sv, accum, bits, out =>
      if Skipped c then decodeLoop table sv accum bits out
      else
        let v := table c
        if v = 0xFF then []
        else
          let accum := (accum <<< 6) ||| v.toUInt32
          let bits := bits + 6
          if 8 ≤ bits then
            let bits := bits - 8
            decodeLoop table sv accum bits (out ++ [((accum >>> UInt32.ofNat bits) &&& 0xFF).toUInt8])
          else decodeLoop table sv accum bits out

def decodeImpl (table : Byte → UInt8) (sv : List Byte) : List Byte := decodeLoop table sv 0 0 []

def kStdTable : Byte → UInt8 := buildDecodeTable kAlphabet

def kUrlTable : Byte → UInt8 := buildDecodeTable kUrlAlphabet

def base64Encode (data : List Byte) : List Byte := encodeImpl kAlphabet true data

def base64Decode (encoded : List Byte) : List Byte := decodeImpl kStdTable encoded

def base64urlEncode (data : List Byte) : List Byte := encodeImpl kUrlAlphabet false data

def base64urlDecode (encoded : List Byte) : List Byte := decodeImpl kUrlTable encoded

section Table

variable {ι : Type} {char : ι → Byte} {value : ι → UInt8}

theorem foldl_update_of_ne {l : List ι} {table : Byte → UInt8} {c : Byte} (h : ∀ i ∈ l, char i ≠ c) :
    l.foldl (fun table i => Function.update table (char i) (value i)) table c = table c := by
  induction l generalizing table with
  | nil => rfl
  | cons i l ih =>
      rw [List.foldl_cons, ih fun j hj => h j (List.mem_cons_of_mem i hj)]
      exact Function.update_of_ne (h i List.mem_cons_self).symm _ _

theorem foldl_update_of_mem {l : List ι} {table : Byte → UInt8} {i : ι} (hmem : i ∈ l)
    (hnodup : (l.map char).Nodup) :
    l.foldl (fun table i => Function.update table (char i) (value i)) table (char i) = value i := by
  induction l generalizing table with
  | nil => cases hmem
  | cons j l ih =>
      rw [List.map_cons, List.nodup_cons] at hnodup
      rw [List.foldl_cons]
      rcases List.mem_cons.mp hmem with rfl | hrest
      · rw [foldl_update_of_ne, Function.update_self]
        intro k hk heq
        exact hnodup.1 (heq ▸ List.mem_map_of_mem hk)
      · exact ih hrest hnodup.2

end Table

theorem Alphabet.map_range (alphabet : Alphabet) :
    (List.range 64).map (fun i => alphabet.chars.getD i 0) = alphabet.chars := by
  apply List.ext_getElem
  · rw [List.length_map, List.length_range, alphabet.length_eq]
  · intro i _ hi
    rw [List.getElem_map, List.getElem_range, List.getD_eq_getElem _ _ hi]

theorem Alphabet.char_mem (alphabet : Alphabet) {k : UInt32} (hk : k.toNat < 64) :
    alphabet.char k ∈ alphabet.chars := by
  have hlt : k.toNat < alphabet.chars.length := by rwa [alphabet.length_eq]
  rw [Alphabet.char, List.getD_eq_getElem _ _ hlt]
  exact List.getElem_mem hlt

theorem buildDecodeTable_char (alphabet : Alphabet) {k : UInt32} (hk : k.toNat < 64) :
    buildDecodeTable alphabet (alphabet.char k) = UInt8.ofNat k.toNat :=
  foldl_update_of_mem (List.mem_range.mpr hk) (by rw [alphabet.map_range]; exact alphabet.nodup)

theorem buildDecodeTable_of_notMem (alphabet : Alphabet) {c : Byte} (h : c ∉ alphabet.chars) :
    buildDecodeTable alphabet c = 0xFF := by
  apply foldl_update_of_ne
  intro i hi heq
  have hmem := List.mem_map_of_mem (f := fun i => alphabet.chars.getD i 0) hi
  rw [alphabet.map_range, heq] at hmem
  exact h hmem

theorem toNat_sextet (n : UInt32) {k : Nat} (hk : k < 32) :
    ((n >>> UInt32.ofNat k) &&& 0x3F).toNat = n.toNat / 2 ^ k % 64 := by
  have hshift : (UInt32.ofNat k).toNat % 32 = k := by
    rw [UInt32.toNat_ofNat']
    omega
  rw [UInt32.toNat_and, UInt32.toNat_shiftRight, hshift, Nat.shiftRight_eq_div_pow]
  exact Nat.and_two_pow_sub_one_eq_mod _ 6

theorem toNat_octet (n : UInt32) {k : Nat} (hk : k < 32) :
    ((n >>> UInt32.ofNat k) &&& 0xFF).toUInt8.toNat = n.toNat / 2 ^ k % 256 := by
  have hshift : (UInt32.ofNat k).toNat % 32 = k := by
    rw [UInt32.toNat_ofNat']
    omega
  rw [UInt32.toNat_toUInt8, UInt32.toNat_and, UInt32.toNat_shiftRight, hshift,
    Nat.shiftRight_eq_div_pow]
  have hmask := Nat.and_two_pow_sub_one_eq_mod (n.toNat / 2 ^ k) 8
  change (n.toNat / 2 ^ k &&& 2 ^ 8 - 1) % 2 ^ 8 = _
  rw [hmask, Nat.mod_mod]

theorem toNat_shiftIn (accum v : UInt32) (hv : v.toNat < 64) :
    ((accum <<< 6) ||| v).toNat = accum.toNat % 2 ^ 26 * 64 + v.toNat := by
  have hshift : accum.toNat <<< 6 % 2 ^ 32 = (accum.toNat % 2 ^ 26) <<< 6 := by
    rw [Nat.shiftLeft_eq, Nat.shiftLeft_eq]
    omega
  rw [UInt32.toNat_or, UInt32.toNat_shiftLeft]
  change (accum.toNat <<< 6 % 2 ^ 32 ||| v.toNat) = _
  rw [hshift, ← Nat.shiftLeft_add_eq_or_of_lt hv, Nat.shiftLeft_eq]

/-! ### The loop -/

section Loop

variable {alphabet : Alphabet} {sv : List Byte} {accum : UInt32} {bits : Nat} {out : List Byte}

theorem decodeLoop_skip {table : Byte → UInt8} {c : Byte} (h : Skipped c) :
    decodeLoop table (c :: sv) accum bits out = decodeLoop table sv accum bits out := by
  rw [decodeLoop, if_pos h]

theorem decodeLoop_char {k : UInt32} (hk : k.toNat < 64) :
    decodeLoop (buildDecodeTable alphabet) (alphabet.char k :: sv) accum bits out =
      if 8 ≤ bits + 6 then
        decodeLoop (buildDecodeTable alphabet) sv ((accum <<< 6) ||| k) (bits + 6 - 8)
          (out ++ [((((accum <<< 6) ||| k) >>> UInt32.ofNat (bits + 6 - 8)) &&& 0xFF).toUInt8])
      else decodeLoop (buildDecodeTable alphabet) sv ((accum <<< 6) ||| k) (bits + 6) out := by
  have hvalue : (UInt8.ofNat k.toNat).toUInt32 = k := by
    apply UInt32.toNat_inj.mp
    rw [UInt8.toNat_toUInt32, UInt8.toNat_ofNat']
    omega
  have hknown : UInt8.ofNat k.toNat ≠ 0xFF := by
    intro heq
    have htoNat := congrArg UInt8.toNat heq
    rw [UInt8.toNat_ofNat'] at htoNat
    change k.toNat % 2 ^ 8 = 255 at htoNat
    omega
  rw [decodeLoop, if_neg (alphabet.notSkipped _ (alphabet.char_mem hk))]
  simp only [buildDecodeTable_char alphabet hk, hknown, if_false, hvalue]

section Groups

variable (alphabet) (sv) (accum) (out)

/-- The first character of a group: what the accumulator held before is not seen any more. -/
theorem decodeLoop_first {k : UInt32} (hk : k.toNat < 64) :
    ∃ accum', accum'.toNat % 2 ^ 6 = k.toNat ∧
      decodeLoop (buildDecodeTable alphabet) (alphabet.char k :: sv) accum 0 out =
        decodeLoop (buildDecodeTable alphabet) sv accum' 6 out := by
  refine ⟨(accum <<< 6) ||| k, ?_, ?_⟩
  · rw [toNat_shiftIn _ _ hk]
    omega
  · rw [decodeLoop_char hk, if_neg (by decide)]

/-- A character that completes a byte: the pending bits followed by its own are the byte and the bits
that are pending then. -/
theorem decodeLoop_octet {k : UInt32} {byte : Byte} {bits rest : Nat} (hk : k.toNat < 64)
    (hbits : bits < 24) (hrest : rest < 2 ^ bits)
    (hpending : accum.toNat % 2 ^ (bits + 2) * 64 + k.toNat = byte.toNat * 2 ^ bits + rest) :
    ∃ accum', accum'.toNat % 2 ^ bits = rest ∧
      decodeLoop (buildDecodeTable alphabet) (alphabet.char k :: sv) accum (bits + 2) out =
        decodeLoop (buildDecodeTable alphabet) sv accum' bits (out ++ [byte]) := by
  have hbyte := byte.toNat_lt
  -- the pending bits are among those that are not pushed out
  obtain ⟨lost, hlost⟩ : ∃ lost, accum.toNat % 2 ^ 26 = 2 ^ (bits + 2) * lost + accum.toNat % 2 ^ (bits + 2) := by
    refine ⟨accum.toNat % 2 ^ 26 / 2 ^ (bits + 2), ?_⟩
    rw [← Nat.mod_mod_of_dvd accum.toNat (Nat.pow_dvd_pow 2 (by omega : bits + 2 ≤ 26))]
    exact (Nat.div_add_mod _ _).symm
  have hvalue : ((accum <<< 6) ||| k).toNat = (lost * 256 + byte.toNat) * 2 ^ bits + rest := by
    calc ((accum <<< 6) ||| k).toNat
        = (2 ^ (bits + 2) * lost + accum.toNat % 2 ^ (bits + 2)) * 64 + k.toNat := by
          rw [toNat_shiftIn _ _ hk, hlost]
      _ = 2 ^ (bits + 2) * lost * 64 + (accum.toNat % 2 ^ (bits + 2) * 64 + k.toNat) := by ring
      _ = (lost * 256 + byte.toNat) * 2 ^ bits + rest := by
          rw [hpending]
          ring
  refine ⟨(accum <<< 6) ||| k, ?_, ?_⟩
  · rw [hvalue, Nat.mul_add_mod_self_right, Nat.mod_eq_of_lt hrest]
  · have hoctet : ((((accum <<< 6) ||| k) >>> UInt32.ofNat bits) &&& 0xFF).toUInt8 = byte := by
      apply UInt8.toNat_inj.mp
      rw [toNat_octet _ (by omega), hvalue, mul_comm, Nat.mul_add_div (Nat.two_pow_pos bits),
        Nat.div_eq_of_lt hrest, add_zero, Nat.mul_add_mod_self_right, Nat.mod_eq_of_lt hbyte]
    rw [decodeLoop_char hk, if_pos (by omega), show bits + 2 + 6 - 8 = bits by omega, hoctet]

theorem decodeLoop_two {s₁ s₂ : UInt32} {a : Byte} {rest : Nat} (h₁ : s₁.toNat = a.toNat / 4)
    (h₂ : s₂.toNat = a.toNat % 4 * 16 + rest) (hrest : rest < 16) :
    ∃ accum', accum'.toNat % 2 ^ 4 = rest ∧
      decodeLoop (buildDecodeTable alphabet) (alphabet.char s₁ :: alphabet.char s₂ :: sv) accum 0 out =
        decodeLoop (buildDecodeTable alphabet) sv accum' 4 (out ++ [a]) := by
  have ha := a.toNat_lt
  obtain ⟨accum₁, hpending, hfirst⟩ :=
    decodeLoop_first alphabet (alphabet.char s₂ :: sv) accum out (show s₁.toNat < 64 by omega)
  rw [hfirst]
  exact decodeLoop_octet _ _ _ _ (by omega) (by omega) hrest (by omega)

theorem decodeLoop_three {s₁ s₂ s₃ : UInt32} {a b : Byte} {rest : Nat} (h₁ : s₁.toNat = a.toNat / 4)
    (h₂ : s₂.toNat = a.toNat % 4 * 16 + b.toNat / 16) (h₃ : s₃.toNat = b.toNat % 16 * 4 + rest)
    (hrest : rest < 4) :
    ∃ accum', accum'.toNat % 2 ^ 2 = rest ∧
      decodeLoop (buildDecodeTable alphabet)
          (alphabet.char s₁ :: alphabet.char s₂ :: alphabet.char s₃ :: sv) accum 0 out =
        decodeLoop (buildDecodeTable alphabet) sv accum' 2 (out ++ [a, b]) := by
  have hb := b.toNat_lt
  obtain ⟨accum₂, hpending, htwo⟩ :=
    decodeLoop_two alphabet (alphabet.char s₃ :: sv) accum out h₁ h₂ (by omega)
  rw [htwo, List.append_cons out a [b]]
  exact decodeLoop_octet _ _ _ _ (by omega) (by omega) hrest (by omega)

theorem decodeLoop_four {s₁ s₂ s₃ s₄ : UInt32} {a b c : Byte} (h₁ : s₁.toNat = a.toNat / 4)
    (h₂ : s₂.toNat = a.toNat % 4 * 16 + b.toNat / 16) (h₃ : s₃.toNat = b.toNat % 16 * 4 + c.toNat / 64)
    (h₄ : s₄.toNat = c.toNat % 64) :
    ∃ accum', decodeLoop (buildDecodeTable alphabet)
        (alphabet.char s₁ :: alphabet.char s₂ :: alphabet.char s₃ :: alphabet.char s₄ :: sv) accum 0 out =
      decodeLoop (buildDecodeTable alphabet) sv accum' 0 (out ++ [a, b, c]) := by
  have hc := c.toNat_lt
  obtain ⟨accum₃, hpending, hthree⟩ :=
    decodeLoop_three alphabet (alphabet.char s₄ :: sv) accum out h₁ h₂ h₃ (by omega)
  have hlast : accum₃.toNat % 2 ^ (0 + 2) * 64 + s₄.toNat = c.toNat * 2 ^ 0 + 0 := by omega
  obtain ⟨accum₄, -, hfour⟩ :=
    decodeLoop_octet alphabet sv accum₃ (out ++ [a, b]) (by omega) (by decide) (by decide) hlast
  exact ⟨accum₄, by rw [hthree, hfour, List.append_assoc]; rfl⟩

end Groups

theorem decodeLoop_skipped {table : Byte → UInt8} (h : ∀ c ∈ sv, Skipped c) :
    decodeLoop table sv accum bits out = out := by
  induction sv with
  | nil => rfl
  | cons c sv ih =>
      rw [decodeLoop_skip (h c List.mem_cons_self)]
      exact ih fun d hd => h d (List.mem_cons_of_mem c hd)

theorem decodeLoop_filter (table : Byte → UInt8) (sv : List Byte) :
    decodeLoop table sv accum bits out =
      decodeLoop table (sv.filter fun c => ¬ Skipped c) accum bits out := by
  induction sv generalizing accum bits out with
  | nil => rfl
  | cons c sv ih =>
      by_cases hskip : Skipped c
      · rw [decodeLoop_skip hskip, List.filter_cons_of_neg (by simpa using hskip)]
        exact ih
      · rw [List.filter_cons_of_pos (by simpa using hskip), decodeLoop, decodeLoop]
        simp only [ih]

theorem decodeLoop_of_unknown (h : ∃ c ∈ sv, ¬ Skipped c ∧ c ∉ alphabet.chars) :
    decodeLoop (buildDecodeTable alphabet) sv accum bits out = [] := by
  induction sv generalizing accum bits out with
  | nil => simp at h
  | cons d sv ih =>
      obtain ⟨c, hmem, hskip, hunknown⟩ := h
      rw [decodeLoop]
      rcases List.mem_cons.mp hmem with rfl | hrest
      · rw [if_neg hskip]
        simp only [buildDecodeTable_of_notMem alphabet hunknown, if_true]
      · have hlater : ∀ accum bits out, decodeLoop (buildDecodeTable alphabet) sv accum bits out = [] :=
          fun _ _ _ => ih ⟨c, hrest, hskip, hunknown⟩
        simp only [hlater, ite_self]

end Loop

/-! ### Reading back what was written -/

theorem toNat_packed (a b c : Byte) :
    ((a.toUInt32 <<< 16) ||| (b.toUInt32 <<< 8) ||| c.toUInt32).toNat =
      a.toNat * 2 ^ 16 + b.toNat * 2 ^ 8 + c.toNat := by
  have ha := a.toNat_lt
  have hb := b.toNat_lt
  have hc := c.toNat_lt
  have hhigh : a.toNat <<< 16 % 2 ^ 32 = (a.toNat <<< 8) <<< 8 := by
    simp only [Nat.shiftLeft_eq]
    omega
  have hmiddle : b.toNat <<< 8 % 2 ^ 32 = b.toNat <<< 8 := by
    rw [Nat.shiftLeft_eq]
    omega
  simp only [UInt32.toNat_or, UInt32.toNat_shiftLeft, UInt8.toNat_toUInt32]
  change a.toNat <<< 16 % 2 ^ 32 ||| b.toNat <<< 8 % 2 ^ 32 ||| c.toNat = _
  rw [hhigh, hmiddle, ← Nat.shiftLeft_or_distrib, ← Nat.shiftLeft_add_eq_or_of_lt hb,
    ← Nat.shiftLeft_add_eq_or_of_lt hc]
  simp only [Nat.shiftLeft_eq]
  ring

theorem toNat_packed_one (a : Byte) : (a.toUInt32 <<< 16).toNat = a.toNat * 2 ^ 16 := by
  simpa using toNat_packed a 0 0

theorem toNat_packed_two (a b : Byte) :
    ((a.toUInt32 <<< 16) ||| (b.toUInt32 <<< 8)).toNat = a.toNat * 2 ^ 16 + b.toNat * 2 ^ 8 := by
  simpa using toNat_packed a b 0

theorem skipped_padding {pad : Bool} {k : Nat} :
    ∀ c ∈ (if pad then List.replicate k (byteOf '=') else []), Skipped c := by
  intro c hc
  cases pad with
  | false => cases hc
  | true => exact Or.inl (List.eq_of_mem_replicate hc)

theorem decodeLoop_encodeImpl (alphabet : Alphabet) (pad : Bool) (data : List Byte) (accum : UInt32)
    (out : List Byte) :
    decodeLoop (buildDecodeTable alphabet) (encodeImpl alphabet pad data) accum 0 out = out ++ data := by
  induction data using encodeImpl.induct generalizing accum out with
  | case1 a b c data ih =>
      have ha := a.toNat_lt
      have hb := b.toNat_lt
      have hc := c.toNat_lt
      rw [encodeImpl]
      generalize hn : (a.toUInt32 <<< 16) ||| (b.toUInt32 <<< 8) ||| c.toUInt32 = n
      have hvalue : n.toNat = a.toNat * 2 ^ 16 + b.toNat * 2 ^ 8 + c.toNat := hn ▸ toNat_packed a b c
      have h₁ := toNat_sextet n (k := 18) (by decide)
      have h₂ := toNat_sextet n (k := 12) (by decide)
      have h₃ := toNat_sextet n (k := 6) (by decide)
      have h₄ : (n &&& 0x3F).toNat = n.toNat % 64 := by simpa using toNat_sextet n (k := 0) (by decide)
      obtain ⟨accum', hgroup⟩ := decodeLoop_four alphabet (encodeImpl alphabet pad data) accum out
        (a := a) (b := b) (c := c) (h₁.trans (by omega)) (h₂.trans (by omega)) (h₃.trans (by omega)) (h₄.trans (by omega))
      refine hgroup.trans ?_
      rw [ih, List.append_assoc]
      rfl
  | case2 a =>
      have ha := a.toNat_lt
      rw [encodeImpl]
      generalize hn : a.toUInt32 <<< 16 = n
      have hvalue : n.toNat = a.toNat * 2 ^ 16 := hn ▸ toNat_packed_one a
      have h₁ := toNat_sextet n (k := 18) (by decide)
      have h₂ := toNat_sextet n (k := 12) (by decide)
      obtain ⟨accum', -, htail⟩ := decodeLoop_two alphabet
        (if pad then [byteOf '=', byteOf '='] else []) accum out (a := a) (h₁.trans (by omega))
        (show _ = a.toNat % 4 * 16 + 0 from h₂.trans (by omega)) (by decide)
      exact htail.trans (decodeLoop_skipped (skipped_padding (k := 2)))
  | case3 a b =>
      have ha := a.toNat_lt
      have hb := b.toNat_lt
      rw [encodeImpl]
      generalize hn : (a.toUInt32 <<< 16) ||| (b.toUInt32 <<< 8) = n
      have hvalue : n.toNat = a.toNat * 2 ^ 16 + b.toNat * 2 ^ 8 := hn ▸ toNat_packed_two a b
      have h₁ := toNat_sextet n (k := 18) (by decide)
      have h₂ := toNat_sextet n (k := 12) (by decide)
      have h₃ := toNat_sextet n (k := 6) (by decide)
      obtain ⟨accum', -, htail⟩ := decodeLoop_three alphabet
        (if pad then [byteOf '='] else []) accum out (a := a) (b := b) (h₁.trans (by omega))
        (h₂.trans (by omega)) (show _ = b.toNat % 16 * 4 + 0 from h₃.trans (by omega)) (by decide)
      exact htail.trans (decodeLoop_skipped (skipped_padding (k := 1)))
  | case4 => exact (List.append_nil out).symm

/-- `Inserted encoded text`: `text` is `encoded` with characters in it that the decoder passes over. -/
inductive Inserted : List Byte → List Byte → Prop
  | nil : Inserted [] []
  | keep (c : Byte) {encoded text : List Byte} : Inserted encoded text → Inserted (c :: encoded) (c :: text)
  | insert {c : Byte} {encoded text : List Byte} (hskip : Skipped c) :
      Inserted encoded text → Inserted encoded (c :: text)

theorem Inserted.refl (encoded : List Byte) : Inserted encoded encoded := by
  induction encoded with
  | nil => exact .nil
  | cons c encoded ih => exact .keep c ih

theorem Inserted.filter_eq {encoded text : List Byte} (h : Inserted encoded text) :
    text.filter (fun c => ¬ Skipped c) = encoded.filter fun c => ¬ Skipped c := by
  induction h with
  | nil => rfl
  | keep c _ ih => rw [List.filter_cons, List.filter_cons, ih]
  | insert hskip _ ih => rw [List.filter_cons_of_neg (by simpa using hskip), ih]

theorem decodeImpl_of_inserted (alphabet : Alphabet) (pad : Bool) {data text : List Byte}
    (h : Inserted (encodeImpl alphabet pad data) text) :
    decodeImpl (buildDecodeTable alphabet) text = data := by
  rw [decodeImpl, decodeLoop_filter, h.filter_eq, ← decodeLoop_filter]
  exact decodeLoop_encodeImpl alphabet pad data 0 []

/-- Decoding undoes encoding, however the text is broken up and padded, and a text with any other
character outside the alphabet is nothing. -/
theorem base64_decode_encode (data text : List Byte) :
    (base64Decode (base64Encode data) = data ∧ base64urlDecode (base64urlEncode data) = data) ∧
      (Inserted (base64Encode data) text → base64Decode text = data) ∧
      (Inserted (base64urlEncode data) text → base64urlDecode text = data) ∧
      ((∃ c ∈ text, ¬ Skipped c ∧ c ∉ kAlphabet.chars) → base64Decode text = []) ∧
      ((∃ c ∈ text, ¬ Skipped c ∧ c ∉ kUrlAlphabet.chars) → base64urlDecode text = []) :=
  ⟨⟨decodeImpl_of_inserted kAlphabet true (Inserted.refl _),
      decodeImpl_of_inserted kUrlAlphabet false (Inserted.refl _)⟩,
    decodeImpl_of_inserted kAlphabet true, decodeImpl_of_inserted kUrlAlphabet false,
    decodeLoop_of_unknown, decodeLoop_of_unknown⟩

/-- A text that is broken in the middle of a group, and one with a character of the other alphabet. -/
theorem base64_decode_broken :
    base64Decode (("T\nWFu IA==".toList).map byteOf) = [77, 97, 110, 32] ∧
      base64Decode (("TW_u".toList).map byteOf) = [] := by
  have hbroken : Inserted (base64Encode [77, 97, 110, 32]) ("T\nWFu IA==".toList.map byteOf) := by
    refine .keep _ (.insert (by decide) (.keep _ (.keep _ (.keep _ (.insert (by decide) ?_)))))
    exact .refl _
  have hother : ∃ c ∈ "TW_u".toList.map byteOf, ¬ Skipped c ∧ c ∉ kAlphabet.chars :=
    ⟨byteOf '_', by decide, by decide, by decide⟩
  exact ⟨(base64_decode_encode _ _).2.1 hbroken, (base64_decode_encode [] _).2.2.2.1 hother⟩

end DownloadWrapper.Base64
