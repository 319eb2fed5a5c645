import Mathlib.Data.List.TakeWhile

/-!
# URL queries

The query of a URL: characters that stand for themselves, percent escapes for all others, and parameters
between `&`, each with a name and a value around the first `=`. Some readers take `+` for a space; `plus`
says whether this one does.
-/

namespace UrlQuery

def isQueryChar (c : Char) : Bool := c.isAlphanum || "-._~!$&'()*+,;=:@/?".toList.contains c

def hexDigit (c : Char) : Option Nat :=
  if c.isDigit then some (c.toNat - '0'.toNat)
  else if 'a'.toNat ≤ c.toNat ∧ c.toNat ≤ 'f'.toNat then some (c.toNat - 'a'.toNat + 10)
  else if 'A'.toNat ≤ c.toNat ∧ c.toNat ≤ 'F'.toNat then some (c.toNat - 'A'.toNat + 10)
  else none

def readChar (plus : Bool) (c : Char) : Char := if plus ∧ c = '+' then ' ' else c

/-- The text without its escapes; `none` if it could not stand in a query. -/
def unescape (plus : Bool) : List Char → Option (List Char)
  | [] => some []
  | c :: text =>
      if c = '%' then
        match text with
        | high :: low :: text =>
            match hexDigit high, hexDigit low with
            | some high, some low => (unescape plus text).map (Char.ofNat (16 * high + low) :: ·)
            | _, _ => none
        | _ => none
      else if isQueryChar c then (unescape plus text).map (readChar plus c :: ·)
      else none

def param (plus : Bool) (part : List Char) : Option (String × String) :=
  match unescape plus (part.takeWhile (· ≠ '=')), unescape plus (part.dropWhile (· ≠ '=')).tail with
  | some name, some value => some (String.ofList name, String.ofList value)
  | _, _ => none

def params (plus : Bool) (query : List Char) : Option (List (String × String)) :=
  (query.splitOn '&').mapM (param plus)

def Literal (plus : Bool) (c : Char) : Prop := isQueryChar c = true ∧ readChar plus c = c

instance (plus : Bool) (c : Char) : Decidable (Literal plus c) := inferInstanceAs (Decidable (_ ∧ _))

variable {plus : Bool} {text value : List Char}

theorem unescape_cons {c : Char} (hescape : c ≠ '%') :
    unescape plus (c :: text) =
      if isQueryChar c then (unescape plus text).map (readChar plus c :: ·) else none := by
  rw [unescape.eq_def]
  exact if_neg hescape

theorem unescape_spec (h : unescape plus text = some value) :
    value.length ≤ text.length ∧
      (text.length ≤ value.length →
        (∀ c ∈ text, isQueryChar c = true) ∧ value = text.map (readChar plus)) := by
  induction text using unescape.induct generalizing value with
  | case1 =>
      obtain rfl := Option.some.inj h
      simp
  | case2 high low text high' low' hhigh hlow ih =>
      simp only [unescape, if_true, hhigh, hlow] at h
      obtain ⟨rest, hrest, rfl⟩ := Option.map_eq_some_iff.mp h
      have hshorter := (ih hrest).1
      simp only [List.length_cons]
      exact ⟨by omega, fun hle => by omega⟩
  | case3 high low text hnone =>
      simp only [unescape, if_true] at h
      cases h
  | case4 text hshort =>
      simp only [unescape, if_true] at h
      cases h
  | case5 c text hescape hquery ih =>
      rw [unescape_cons hescape, if_pos hquery] at h
      obtain ⟨rest, hrest, rfl⟩ := Option.map_eq_some_iff.mp h
      obtain ⟨hle, hall⟩ := ih hrest
      simp only [List.length_cons, List.map_cons]
      refine ⟨by omega, fun hge => ?_⟩
      obtain ⟨hchars, rfl⟩ := hall (by omega)
      exact ⟨List.forall_mem_cons.mpr ⟨hquery, hchars⟩, rfl⟩
  | case6 c text hescape hquery =>
      rw [unescape_cons hescape, if_neg hquery] at h
      cases h

theorem unescape_of_literal (h : ∀ c ∈ text, Literal plus c) : unescape plus text = some text := by
  induction text with
  | nil => rfl
  | cons c text ih =>
      obtain ⟨⟨hquery, hread⟩, hrest⟩ := List.forall_mem_cons.mp h
      have hescape : c ≠ '%' := by
        rintro rfl
        exact absurd hquery (by decide)
      rw [unescape_cons hescape, if_pos hquery, ih hrest, Option.map_some, hread]

theorem literal_of_unescape_prefix (hstart : text <+: value) (h : unescape plus text = some value) :
    text = value ∧ ∀ c ∈ value, Literal plus c := by
  obtain ⟨hle, hall⟩ := unescape_spec h
  obtain rfl : text = value := hstart.eq_of_length (Nat.le_antisymm hstart.length_le hle)
  obtain ⟨hquery, hmap⟩ := hall (Nat.le_refl _)
  refine ⟨rfl, fun c hc => ⟨hquery c hc, ?_⟩⟩
  exact (List.map_inj_left.mp (hmap.symm.trans (List.map_id text).symm)) c hc

def beforeFragment (text : List Char) : List Char := text.takeWhile (· ≠ '#')

def isPlain (c : Char) : Bool := c ≠ '#' && c ≠ '&'

def Verbatim (plus : Bool) (c : Char) : Prop := Literal plus c ∧ c ≠ '&'

instance (plus : Bool) (c : Char) : Decidable (Verbatim plus c) := inferInstanceAs (Decidable (_ ∧ _))

theorem Verbatim.ne_hash {c : Char} (h : Verbatim plus c) : c ≠ '#' := by
  rintro rfl
  exact absurd h.1.1 (by decide)

theorem Verbatim.isPlain {c : Char} (h : Verbatim plus c) : isPlain c = true := by
  simp only [UrlQuery.isPlain, h.ne_hash, h.2, ne_eq, not_false_eq_true, decide_true, Bool.and_self]

theorem beforeFragment_append (h : ∀ c ∈ text, Verbatim plus c) (rest : List Char) :
    beforeFragment (text ++ rest) = text ++ beforeFragment rest :=
  List.takeWhile_append_of_pos fun c hc => by simpa using (h c hc).ne_hash

theorem ampersand_notMem (h : ∀ c ∈ text, Verbatim plus c) : '&' ∉ text :=
  fun hmem => (h _ hmem).2 rfl

theorem param_of_name {name : List Char} (hname : ∀ c ∈ name, Literal plus c) (heq : '=' ∉ name)
    (text : List Char) :
    param plus (name ++ '=' :: text) =
      (unescape plus text).map fun value => (String.ofList name, String.ofList value) := by
  have hkept : ∀ c ∈ name, decide (c ≠ '=') = true := by
    intro c hc
    rw [decide_eq_true_eq]
    rintro rfl
    exact heq hc
  have htake : (name ++ '=' :: text).takeWhile (· ≠ '=') = name := by
    rw [List.takeWhile_append_of_pos hkept]
    simp
  have hdrop : (name ++ '=' :: text).dropWhile (· ≠ '=') = '=' :: text := by
    rw [List.dropWhile_append_of_pos hkept]
    simp
  rw [param, htake, hdrop, unescape_of_literal hname, List.tail_cons]
  cases unescape plus text <;> rfl

theorem exists_plain_split (value rest : List Char) :
    ∃ c more, value ++ '&' :: rest = value.takeWhile isPlain ++ c :: more ∧ (c = '#' ∨ c = '&') := by
  induction value with
  | nil => exact ⟨'&', rest, rfl, Or.inr rfl⟩
  | cons c value ih =>
      by_cases hplain : isPlain c = true
      · obtain ⟨d, more, heq, hd⟩ := ih
        exact ⟨d, more, by rw [List.cons_append, heq, List.takeWhile_cons_of_pos hplain]; rfl, hd⟩
      · refine ⟨c, value ++ '&' :: rest, by rw [List.takeWhile_cons_of_neg hplain]; rfl, ?_⟩
        simp only [isPlain, Bool.and_eq_true, decide_eq_true_eq, not_and_or, not_not] at hplain
        exact hplain

theorem params_cons {part : List Char} (hpart : '&' ∉ part) (rest : List Char) :
    params plus (part ++ '&' :: rest) =
      (param plus part).bind fun first => (params plus rest).map (first :: ·) := by
  rw [params, params, List.splitOn_append_cons_self_of_not_mem hpart, List.mapM_cons]
  cases param plus part with
  | none => rfl
  | some first => cases (rest.splitOn '&').mapM (param plus) <;> rfl

theorem params_single {part : List Char} (hpart : '&' ∉ part) :
    params plus part = (param plus part).map ([·]) := by
  rw [params, List.splitOn_eq_singleton hpart, List.mapM_cons]
  cases param plus part <;> rfl

/-- A name as it stands in front of a value. -/
structure NameText (plus : Bool) (name : List Char) : Prop where
  verbatim : ∀ c ∈ name, Verbatim plus c
  no_eq : '=' ∉ name

section Queries

variable {name rest : List Char} {ps : List (String × String)}

theorem NameText.param (hname : NameText plus name) (text : List Char) :
    param plus (name ++ '=' :: text) =
      (unescape plus text).map fun value => (String.ofList name, String.ofList value) :=
  param_of_name (fun c hc => (hname.verbatim c hc).1) hname.no_eq text

/-- The first parameter of a query is there with what its value has before a separator. -/
theorem params_first (hname : NameText plus name)
    (h : params plus (beforeFragment (name ++ '=' :: (value ++ '&' :: rest))) = some ps) :
    ∃ text tail, unescape plus (value.takeWhile isPlain) = some text ∧
      ps = (String.ofList name, String.ofList text) :: tail := by
  obtain ⟨sep, more, htext, hsep⟩ := exists_plain_split value rest
  have hhash : ∀ c ∈ '=' :: value.takeWhile isPlain, c ≠ '#' ∧ c ≠ '&' := by
    refine List.forall_mem_cons.mpr ⟨by decide, fun c hc => ?_⟩
    simpa [isPlain] using List.mem_takeWhile_imp hc
  have hamp : '&' ∉ name ++ '=' :: value.takeWhile isPlain := by
    rw [List.mem_append, not_or]
    exact ⟨ampersand_notMem hname.verbatim, fun hmem => (hhash _ hmem).2 rfl⟩
  have hcut : ∀ text, beforeFragment ('=' :: value.takeWhile isPlain ++ text) =
      '=' :: value.takeWhile isPlain ++ beforeFragment text := fun text =>
    List.takeWhile_append_of_pos fun c hc => by simpa using (hhash c hc).1
  rw [htext, ← List.cons_append, beforeFragment_append hname.verbatim, hcut, ← List.append_assoc] at h
  rcases hsep with rfl | rfl
  · have hend : beforeFragment ('#' :: more) = [] := rfl
    rw [hend, List.append_nil, params_single hamp, hname.param] at h
    obtain ⟨first, hfirst, rfl⟩ := Option.map_eq_some_iff.mp h
    obtain ⟨text, hread, rfl⟩ := Option.map_eq_some_iff.mp hfirst
    exact ⟨text, [], hread, rfl⟩
  · have hnext : beforeFragment ('&' :: more) = '&' :: beforeFragment more := rfl
    rw [hnext, params_cons hamp, hname.param] at h
    obtain ⟨first, hfirst, htail⟩ := Option.bind_eq_some_iff.mp h
    obtain ⟨text, hread, rfl⟩ := Option.map_eq_some_iff.mp hfirst
    obtain ⟨tail, -, rfl⟩ := Option.map_eq_some_iff.mp htail
    exact ⟨text, tail, hread, rfl⟩

theorem NameText.append_value (hname : NameText plus name) (hvalue : ∀ c ∈ value, Verbatim plus c) :
    ∀ c ∈ name ++ '=' :: value, Verbatim plus c := by
  refine List.forall_mem_append.mpr ⟨hname.verbatim, List.forall_mem_cons.mpr ⟨?_, hvalue⟩⟩
  cases plus <;> decide

theorem params_verbatim (hname : NameText plus name) (hvalue : ∀ c ∈ value, Verbatim plus c) :
    params plus (beforeFragment (name ++ '=' :: (value ++ '&' :: rest))) =
      (params plus (beforeFragment rest)).map ((String.ofList name, String.ofList value) :: ·) := by
  have hpart := hname.append_value hvalue
  have hcut : beforeFragment ('&' :: rest) = '&' :: beforeFragment rest := rfl
  rw [← List.cons_append, ← List.append_assoc, beforeFragment_append hpart, hcut,
    params_cons (ampersand_notMem hpart), hname.param, unescape_of_literal fun c hc => (hvalue c hc).1]
  rfl

theorem params_verbatim_last (hname : NameText plus name) (hvalue : ∀ c ∈ value, Verbatim plus c) :
    params plus (beforeFragment (name ++ '=' :: value)) =
      some [(String.ofList name, String.ofList value)] := by
  have hpart := hname.append_value hvalue
  have hcut : beforeFragment (name ++ '=' :: value) = name ++ '=' :: value := by
    have happend := beforeFragment_append hpart []
    rwa [List.append_nil, show beforeFragment [] = [] from rfl, List.append_nil] at happend
  rw [hcut, params_single (ampersand_notMem hpart), hname.param,
    unescape_of_literal fun c hc => (hvalue c hc).1]
  rfl

/-- The value of the first parameter is read as it stands just if it stands for itself. -/
theorem verbatim_of_params_first (hname : NameText plus name)
    (h : params plus (beforeFragment (name ++ '=' :: (value ++ '&' :: rest))) =
      some ((String.ofList name, String.ofList value) :: ps)) :
    ∀ c ∈ value, Verbatim plus c := by
  obtain ⟨text, tail, hread, heq⟩ := params_first hname h
  obtain rfl : value = text := String.ofList_inj.mp (Prod.mk.inj (List.cons.inj heq).1).2
  obtain ⟨hwhole, hliteral⟩ := literal_of_unescape_prefix (List.takeWhile_prefix isPlain) hread
  intro c hc
  have hplain : isPlain c = true := List.mem_takeWhile_imp (hwhole.symm ▸ hc)
  refine ⟨hliteral c hc, ?_⟩
  rintro rfl
  exact absurd hplain (by decide)

end Queries

end UrlQuery
