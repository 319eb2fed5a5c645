import DownloadWrapper.Http.Blocks

/-!
# Whether the final response decides

A connection's responses as blocks of header lines, and the exact condition on them under which the
blocks before the final one leave no trace in what the download is fixed with.
-/

namespace DownloadWrapper

open Pin TaskCtx

/-- The header of one response: a status line and the fields under it. -/
structure Block where
  statusLine : String
  code : Int
  fields : List String
  status_eq : parseHeaderLine statusLine = .status (some code)
  fields_ne : ∀ field ∈ fields, field ≠ ""
  fields_plain : ∀ field ∈ fields, ∀ status, parseHeaderLine field ≠ .status status

namespace Block

def lines (b : Block) : List String := b.statusLine :: b.fields

def header (b : Block) : List HeaderLine := b.lines.map parseHeaderLine

theorem line_ne (b : Block) : ∀ line ∈ b.lines, line ≠ "" := by
  intro line hline
  rcases List.mem_cons.mp hline with rfl | hfield
  · intro hempty
    have hblank : parseHeaderLine "" = .blank := by decide
    have hstatus := b.status_eq
    rw [hempty, hblank] at hstatus
    exact HeaderLine.noConfusion hstatus
  · exact b.fields_ne line hfield

theorem header_eq (b : Block) : b.header = .status (some b.code) :: b.fields.map parseHeaderLine := by
  rw [header, lines, List.map_cons, b.status_eq]

end Block

section Headers

variable (blocks : List Block)

def headers : List HeaderLine := blocks.flatMap Block.header

def totals : List Int := (headers blocks).filterMap HeaderLine.total?

def etags : List String := (headers blocks).filterMap HeaderLine.etag?

def lastModifieds : List String := (headers blocks).filterMap HeaderLine.lastModified?

def names : List String := (headers blocks).filterMap HeaderLine.name?

/-- The lengths a probe counts as the file's: those under any code but 206. -/
def countedLengths : List Int :=
  (blocks.filter (·.code ≠ 206)).flatMap fun b => b.header.filterMap HeaderLine.length?

end Headers

theorem map_lines (blocks : List Block) :
    (blocks.flatMap Block.lines).map parseHeaderLine = headers blocks := by
  rw [List.map_flatMap]
  rfl

theorem total_pos_of_mem_headers {blocks : List Block} : ∀ total ∈ totals blocks, 0 < total := by
  intro total htotal
  obtain ⟨line, hline, hvalue⟩ := List.mem_filterMap.mp htotal
  obtain ⟨b, -, hb⟩ := List.mem_flatMap.mp hline
  obtain ⟨text, -, rfl⟩ := List.mem_map.mp hb
  cases hparse : parseHeaderLine text with
  | contentRange t =>
      rw [hparse] at hvalue
      obtain rfl : t = some total := hvalue
      exact parseHeaderLine_total_pos hparse
  | _ => simp [hparse, HeaderLine.total?] at hvalue

theorem length_pos_of_mem_header {b : Block} : ∀ length ∈ b.header.filterMap HeaderLine.length?,
    0 < length := by
  intro length hlength
  obtain ⟨line, hline, hvalue⟩ := List.mem_filterMap.mp hlength
  obtain ⟨text, -, rfl⟩ := List.mem_map.mp hline
  cases hparse : parseHeaderLine text with
  | contentLength l =>
      rw [hparse] at hvalue
      obtain rfl : l = some length := hvalue
      exact parseHeaderLine_length_pos hparse
  | _ => simp [hparse, HeaderLine.length?] at hvalue

theorem countedLengths_pos {blocks : List Block} : ∀ length ∈ countedLengths blocks,
    0 < length := by
  intro length hlength
  obtain ⟨b, -, hb⟩ := List.mem_flatMap.mp hlength
  exact length_pos_of_mem_header length hb

theorem code?_fields (b : Block) : ∀ line ∈ b.fields.map parseHeaderLine, line.code? = none := by
  intro line hline
  obtain ⟨field, hfield, rfl⟩ := List.mem_map.mp hline
  have hplain := b.fields_plain field hfield
  cases hparse : parseHeaderLine field with
  | status code => exact absurd hparse (hplain code)
  | _ => rfl

theorem Block.code?_eq (b : Block) : ∀ code ∈ b.header.filterMap HeaderLine.code?, code = b.code := by
  intro code hcode
  obtain ⟨line, hline, hsays⟩ := List.mem_filterMap.mp hcode
  rw [b.header_eq] at hline
  rcases List.mem_cons.mp hline with rfl | hline
  · exact (Option.some.inj hsays).symm
  · simp [code?_fields b line hline] at hsays

theorem codes_headers (blocks : List Block) :
    (headers blocks).filterMap HeaderLine.code? = blocks.map Block.code := by
  induction blocks with
  | nil => rfl
  | cons b blocks ih =>
      have hfields : (b.fields.map parseHeaderLine).filterMap HeaderLine.code? = [] :=
        List.filterMap_eq_nil_iff.mpr (code?_fields b)
      rw [headers, List.flatMap_cons, List.filterMap_append, b.header_eq, List.filterMap_cons, hfields,
        List.map_cons]
      exact congrArg (b.code :: ·) ih

/-! ### The connection's code and size -/

def firstLength (size : Int) (lengths : List Int) : Int :=
  if size ≤ 0 then lengths.head?.getD size else size

theorem firstLength_append {size : Int} {lengths lengths' : List Int}
    (hpos : ∀ length ∈ lengths, 0 < length) :
    firstLength (firstLength size lengths) lengths' = firstLength size (lengths ++ lengths') := by
  cases lengths with
  | nil =>
      have hnil : firstLength size [] = size := by simp [firstLength]
      rw [hnil, List.nil_append]
  | cons length lengths =>
      have hlength := hpos length List.mem_cons_self
      simp only [firstLength, List.head?_cons, List.cons_append, Option.getD_some]
      split
      · rw [if_neg (by omega)]
      · rfl

theorem track_code {probing : Bool} {lines : List HeaderLine} {cs : Int × Int}
    (hplain : ∀ line ∈ lines, line.code? = none) :
    (lines.foldl (Seen.track probing) cs).1 = cs.1 := by
  induction lines generalizing cs with
  | nil => rfl
  | cons line lines ih =>
      rw [List.foldl_cons, ih fun l hl => hplain l (List.mem_cons_of_mem line hl)]
      have hline := hplain line List.mem_cons_self
      cases line with
      | status code =>
          cases code with
          | none => rfl
          | some code => simp [HeaderLine.code?] at hline
      | contentRange total => cases total <;> rfl
      | contentLength length =>
          cases length with
          | none => rfl
          | some length =>
              rw [Seen.track]
              split <;> rfl
      | _ => rfl

theorem track_fields {probing : Bool} {lines : List HeaderLine} {code size : Int}
    (hplain : ∀ line ∈ lines, line.code? = none) (htotals : ∀ line ∈ lines, line.total? = none)
    (hpos : ∀ length ∈ lines.filterMap HeaderLine.length?, 0 < length) :
    lines.foldl (Seen.track probing) (code, size) =
      (code, if probing ∧ code ≠ 206 then
        firstLength size (lines.filterMap HeaderLine.length?) else size) := by
  induction lines generalizing size with
  | nil => simp [firstLength]
  | cons line lines ih =>
      have hplain' : ∀ l ∈ lines, l.code? = none := fun l hl =>
        hplain l (List.mem_cons_of_mem line hl)
      have htotals' : ∀ l ∈ lines, l.total? = none := fun l hl =>
        htotals l (List.mem_cons_of_mem line hl)
      have hcode := hplain line List.mem_cons_self
      have htotal := htotals line List.mem_cons_self
      rw [List.foldl_cons]
      cases line with
      | status c =>
          cases c with
          | none => exact ih hplain' htotals' hpos
          | some c => simp [HeaderLine.code?] at hcode
      | contentRange t =>
          cases t with
          | none => exact ih hplain' htotals' hpos
          | some t => simp [HeaderLine.total?] at htotal
      | contentLength l =>
          cases l with
          | none => exact ih hplain' htotals' hpos
          | some length =>
              have hlengths : (HeaderLine.contentLength (some length) :: lines).filterMap
                  HeaderLine.length? = length :: lines.filterMap HeaderLine.length? := rfl
              rw [hlengths] at hpos ⊢
              have hpos' : ∀ l ∈ lines.filterMap HeaderLine.length?, 0 < l := fun l hl =>
                hpos l (List.mem_cons_of_mem length hl)
              have hlength := hpos length List.mem_cons_self
              simp only [Seen.track]
              by_cases hcounts : probing ∧ code ≠ 206
              · by_cases hsize : size ≤ 0
                · rw [if_pos ⟨hsize, hcounts⟩, ih hplain' htotals' hpos', if_pos hcounts,
                    if_pos hcounts]
                  simp [firstLength, hsize, not_le.mpr hlength]
                · rw [if_neg fun h => hsize h.1, ih hplain' htotals' hpos', if_pos hcounts,
                    if_pos hcounts]
                  simp [firstLength, hsize]
              · rw [if_neg fun h => hcounts h.2, ih hplain' htotals' hpos', if_neg hcounts,
                  if_neg hcounts]
      | _ => exact ih hplain' htotals' hpos

theorem track_block_code (probing : Bool) (b : Block) (cs : Int × Int) :
    (b.header.foldl (Seen.track probing) cs).1 = b.code := by
  rw [b.header_eq, List.foldl_cons, track_code (code?_fields b)]
  rfl

theorem track_blocks_size {probing : Bool} {blocks : List Block} (cs : Int × Int)
    (htotals : totals blocks = []) :
    ((headers blocks).foldl (Seen.track probing) cs).2 =
      if probing then firstLength cs.2 (countedLengths blocks) else cs.2 := by
  induction blocks generalizing cs with
  | nil => simp [headers, countedLengths, firstLength]
  | cons b blocks ih =>
      have hsplit : totals (b :: blocks) = b.header.filterMap HeaderLine.total? ++ totals blocks := by
        rw [totals, headers, List.flatMap_cons, List.filterMap_append]
        rfl
      obtain ⟨hblock, hrest⟩ := List.append_eq_nil_iff.mp (hsplit ▸ htotals)
      have hnone : ∀ line ∈ b.fields.map parseHeaderLine, line.total? = none := by
        intro line hline
        refine List.filterMap_eq_nil_iff.mp hblock line ?_
        rw [b.header_eq]
        exact List.mem_cons_of_mem _ hline
      have hlengths : b.header.filterMap HeaderLine.length? =
          (b.fields.map parseHeaderLine).filterMap HeaderLine.length? := by
        rw [b.header_eq]
        rfl
      have hpos := @length_pos_of_mem_header b
      rw [headers, List.flatMap_cons, List.foldl_append]
      have hone : b.header.foldl (Seen.track probing) cs =
          (b.code, if probing ∧ b.code ≠ 206 then
            firstLength cs.2 (b.header.filterMap HeaderLine.length?) else cs.2) := by
        rw [hlengths, b.header_eq, List.foldl_cons]
        exact track_fields (code?_fields b) hnone (hlengths ▸ hpos)
      rw [hone]
      refine (ih _ hrest).trans ?_
      cases probing with
      | false => simp
      | true =>
          simp only [if_true, true_and, countedLengths, List.filter_cons]
          by_cases hcode : b.code = 206
          · simp [hcode]
          · simp only [ne_eq, hcode, not_false_eq_true, decide_true, if_true, List.flatMap_cons]
            exact firstLength_append hpos

/-! ### The condition -/

/-- The blocks agree with the task and among themselves: no line of them is content drift. -/
structure Agrees (t : TaskCtx) (i : Nat) (blocks : List Block) : Prop where
  status : ∀ b ∈ blocks, b.code = 200 → t.fullStreamOk i
  total : (pinAll (· ≤ 0) t.totalSize (totals blocks)).isSome
  etag : (pinAll (· = "") t.etag (etags blocks)).isSome
  lastModified : (pinAll (· = "") t.lastModified (lastModifieds blocks)).isSome

/-- The size the blocks before the final one leave: their total or else, when the final block has
none either, the first length of theirs that counts. -/
def sizeBefore (probing : Bool) (blocks : List Block) (final : Block) : Option Int :=
  (totals blocks).head?.or
    (if probing ∧ totals [final] = [] then (countedLengths blocks).head? else none)

def sizeOfFinal (probing : Bool) (final : Block) : Option Int :=
  (totals [final]).head?.or (if probing then (countedLengths [final]).head? else none)

/-- Every value the task lacks and the blocks give is the one the final block gives by itself. -/
structure AddsNothing (urlLib : UrlLib) (t : TaskCtx) (blocks : List Block) (final : Block) :
    Prop where
  size : t.totalSize ≤ 0 → ∀ n ∈ sizeBefore t.probing blocks final,
    sizeOfFinal t.probing final = some n
  etag : ∀ v ∈ etags blocks, v ≠ "" → t.etag ≠ "" ∨ etags [final] ≠ [] ∧ ∀ w ∈ etags [final], w = v
  lastModified : ∀ v ∈ lastModifieds blocks, v ≠ "" →
    t.lastModified ≠ "" ∨ lastModifieds [final] ≠ [] ∧ ∀ w ∈ lastModifieds [final], w = v
  name : t.filename = "" → ∀ n ∈ (names blocks).head?,
    (names [final]).head?.getD (if t.probing then fallbackName urlLib t.url else "") = n

/-- The blocks before the final one put no error on the task, and leave what is fixed as the final
one alone would. -/
def FinalDecides (cfg : HttpConfig) (env : WriteEnv) (fs : Fs) (t : TaskCtx) (i : Nat)
    (blocks : List Block) (final : Block) : Prop :=
  (feed t i (blocks.flatMap Block.lines)).1.status ≠ .error ∧
    fixedBy cfg env fs t i ((blocks ++ [final]).flatMap Block.lines) =
      fixedBy cfg env fs t i final.lines

instance (cfg : HttpConfig) (env : WriteEnv) (fs : Fs) (t : TaskCtx) (i : Nat) (blocks : List Block)
    (final : Block) : Decidable (FinalDecides cfg env fs t i blocks final) :=
  inferInstanceAs (Decidable (_ ∧ _))

theorem agrees_iff {t : TaskCtx} {i : Nat} {blocks : List Block} :
    Agrees t i blocks ↔
      ((t.seen i).applyAll t.probing (t.fullStreamOk i) (headers blocks)).isSome := by
  rw [Option.isSome_iff_exists]
  constructor
  · intro h
    obtain ⟨total, htotal⟩ := Option.isSome_iff_exists.mp h.total
    obtain ⟨etag, hetag⟩ := Option.isSome_iff_exists.mp h.etag
    obtain ⟨modified, hmodified⟩ := Option.isSome_iff_exists.mp h.lastModified
    let cs := (headers blocks).foldl (Seen.track t.probing) ((t.seen i).code, (t.seen i).size)
    refine ⟨⟨cs.1, cs.2, total, etag, modified, _⟩, (Seen.applyAll_eq_some_iff _ _ _ _ _).mpr
      ⟨⟨?_, htotal, hetag, hmodified⟩, rfl, rfl⟩⟩
    rw [codes_headers]
    exact fun code hcode => by
      obtain ⟨b, hb, rfl⟩ := List.mem_map.mp hcode
      exact h.status b hb
  · rintro ⟨s, hs⟩
    obtain ⟨haccepts, -⟩ := (Seen.applyAll_eq_some_iff _ _ _ _ _).mp hs
    refine ⟨fun b hb => ?_, ?_, ?_, ?_⟩
    · have hcodes := haccepts.status
      rw [codes_headers] at hcodes
      exact hcodes b.code (List.mem_map_of_mem hb)
    · exact Option.isSome_iff_exists.mpr ⟨_, haccepts.total⟩
    · exact Option.isSome_iff_exists.mpr ⟨_, haccepts.etag⟩
    · exact Option.isSome_iff_exists.mpr ⟨_, haccepts.lastModified⟩

theorem headers_singleton (b : Block) : headers [b] = b.header := by
  rw [headers, List.flatMap_cons, List.flatMap_nil, List.append_nil]

theorem settledTotal_of_pos {probing : Bool} {total : Int} (size : Int) (hpos : 0 < total) :
    settledTotal probing total size = total :=
  if_neg fun h => absurd h.2.1 (by omega)

theorem headers_append (blocks blocks' : List Block) :
    headers (blocks ++ blocks') = headers blocks ++ headers blocks' := List.flatMap_append

theorem totals_append (blocks blocks' : List Block) :
    totals (blocks ++ blocks') = totals blocks ++ totals blocks' := by
  rw [totals, headers_append, List.filterMap_append]
  rfl

/-- The size some blocks give: their total or else the first length of theirs that counts. -/
def givenSize (probing : Bool) (blocks : List Block) : Option Int :=
  (totals blocks).head?.or (if probing then (countedLengths blocks).head? else none)

theorem givenSize_final (probing : Bool) (final : Block) :
    givenSize probing [final] = sizeOfFinal probing final := rfl

theorem givenSize_append (probing : Bool) (blocks : List Block) (final : Block) :
    givenSize probing (blocks ++ [final]) =
      (sizeBefore probing blocks final).or (sizeOfFinal probing final) := by
  have hlengths : countedLengths (blocks ++ [final]) =
      countedLengths blocks ++ countedLengths [final] := by
    simp only [countedLengths, List.filter_append, List.flatMap_append]
  rw [givenSize, sizeBefore, sizeOfFinal, totals_append, hlengths]
  cases totals blocks <;> cases totals [final] <;> cases probing <;> simp

theorem givenSize_pos {probing : Bool} {blocks : List Block} :
    ∀ n ∈ givenSize probing blocks, 0 < n := by
  intro n hn
  rcases Option.or_eq_some_iff.mp hn with htotal | ⟨-, hlength⟩
  · exact total_pos_of_mem_headers n (List.mem_of_head? htotal)
  · split at hlength
    · exact countedLengths_pos n (List.mem_of_head? hlength)
    · simp at hlength

theorem settledTotal_track {probing : Bool} {blocks : List Block} {cs : Int × Int} {cur total : Int}
    (hcur : cur ≤ 0) (hsize : cs.2 = 0) (hpin : pinAll (· ≤ 0) cur (totals blocks) = some total) :
    settledTotal probing total ((headers blocks).foldl (Seen.track probing) cs).2 =
      (givenSize probing blocks).getD cur := by
  cases htotals : totals blocks with
  | cons v vs =>
      have hmem : v ∈ totals blocks := htotals ▸ List.mem_cons_self
      have hv := total_pos_of_mem_headers v hmem
      obtain rfl : v = total := eq_of_pinAll_of_mem hpin hmem (not_le.mpr hv)
      rw [settledTotal_of_pos _ hv]
      simp [givenSize, htotals]
  | nil =>
      rw [htotals, pinAll_nil, Option.some.injEq] at hpin
      subst hpin
      rw [track_blocks_size _ htotals, hsize]
      have hpos := @countedLengths_pos blocks
      cases probing with
      | false => simp [settledTotal, givenSize, htotals]
      | true =>
          cases hcounted : countedLengths blocks with
          | nil => simp [settledTotal, givenSize, htotals, hcounted, firstLength]
          | cons n ns =>
              have hn := hpos n (hcounted ▸ List.mem_cons_self)
              simp [settledTotal, givenSize, htotals, hcounted, firstLength, hcur, hn]

theorem exists_pinAll_final {probing : Bool} {blocks : List Block} {final : Block} {cur c d : Int}
    (hfed : pinAll (· ≤ 0) cur (totals blocks) = some c)
    (hown : pinAll (· ≤ 0) cur (totals [final]) = some d)
    (hsame : ∀ n ∈ sizeBefore probing blocks final, sizeOfFinal probing final = some n) :
    ∃ total, pinAll (· ≤ 0) c (totals [final]) = some total := by
  cases hbefore : totals blocks with
  | nil =>
      rw [hbefore, pinAll_nil, Option.some.injEq] at hfed
      exact ⟨d, hfed ▸ hown⟩
  | cons v vs =>
      have hmem : v ∈ totals blocks := hbefore ▸ List.mem_cons_self
      have hv := total_pos_of_mem_headers v hmem
      obtain rfl : v = c := eq_of_pinAll_of_mem hfed hmem (not_le.mpr hv)
      have hfinal := hsame v (by simp [sizeBefore, hbefore])
      have hpinned : ∀ ws, pinAll (· ≤ 0) v ws = if ∀ w ∈ ws, w = v then some v else none :=
        pinAll_of_not_blank (not_le.mpr hv)
      refine ⟨v, ?_⟩
      rw [hpinned, if_pos]
      intro w hw
      -- the final block's totals are all one, and the first of them is `v`
      have hall : ∀ u ∈ totals [final], u = d := fun u hu =>
        eq_of_pinAll_of_mem hown hu (not_le.mpr (total_pos_of_mem_headers u hu))
      cases htotals : totals [final] with
      | nil => simp [htotals] at hw
      | cons u us =>
          obtain rfl : u = v := by simpa [sizeOfFinal, htotals] using hfinal
          rw [hall w hw, hall u (htotals ▸ List.mem_cons_self)]

/-- The total: fed first with the blocks, it is accepted and settled as without them exactly when
the blocks give no size but the final one's. -/
theorem settledTotal_eq_iff {probing full : Bool} {blocks : List Block} {final : Block}
    {s s₁ s₂ : Seen} (hsize : s.size = 0) (h₁ : s.applyAll probing full (headers blocks) = some s₁)
    (h₂ : s.applyAll probing full (headers [final]) = some s₂) :
    (∃ total, pinAll (· ≤ 0) s₁.total (totals [final]) = some total ∧
        settledTotal probing total
            ((headers [final]).foldl (Seen.track probing) (s₁.code, s₁.size)).2
          = settledTotal probing s₂.total s₂.size) ↔
      (s.total ≤ 0 → ∀ n ∈ sizeBefore probing blocks final, sizeOfFinal probing final = some n) := by
  obtain ⟨haccepts₁, -, htrack₁⟩ := (Seen.applyAll_eq_some_iff _ _ _ _ _).mp h₁
  obtain ⟨haccepts₂, -, htrack₂⟩ := (Seen.applyAll_eq_some_iff _ _ _ _ _).mp h₂
  have htotal₁ : pinAll (· ≤ 0) s.total (totals blocks) = some s₁.total := haccepts₁.total
  have htotal₂ : pinAll (· ≤ 0) s.total (totals [final]) = some s₂.total := haccepts₂.total
  by_cases htotal : s.total ≤ 0
  · rw [imp_iff_right htotal]
    have hown : settledTotal probing s₂.total s₂.size =
        (sizeOfFinal probing final).getD s.total := by
      have hsize₂ : s₂.size = _ := congrArg Prod.snd htrack₂
      rw [hsize₂, ← givenSize_final]
      exact settledTotal_track htotal hsize htotal₂
    have hboth : ∀ total, pinAll (· ≤ 0) s₁.total (totals [final]) = some total →
        settledTotal probing total
            ((headers [final]).foldl (Seen.track probing) (s₁.code, s₁.size)).2 =
          ((sizeBefore probing blocks final).or (sizeOfFinal probing final)).getD s.total := by
      intro total htaken
      have hpin : pinAll (· ≤ 0) s.total (totals (blocks ++ [final])) = some total := by
        rw [totals_append, pinAll_append, htotal₁]
        exact htaken
      rw [← givenSize_append, htrack₁, ← List.foldl_append, ← headers_append]
      exact settledTotal_track htotal hsize hpin
    constructor
    · rintro ⟨total, htaken, hsettled⟩ n hn
      have hpos : 0 < n := by
        refine @givenSize_pos probing (blocks ++ [final]) n ?_
        rw [givenSize_append, Option.mem_def.mp hn]
        rfl
      rw [hboth total htaken, hown, Option.mem_def.mp hn, Option.some_or,
        Option.getD_some] at hsettled
      cases hfinal : sizeOfFinal probing final with
      | none =>
          rw [hfinal, Option.getD_none] at hsettled
          omega
      | some m => rw [hsettled, hfinal, Option.getD_some]
    · intro hsame
      obtain ⟨total, htaken⟩ := exists_pinAll_final htotal₁ htotal₂ hsame
      refine ⟨total, htaken, ?_⟩
      rw [hboth total htaken, hown]
      cases hbefore : sizeBefore probing blocks final with
      | none => rw [Option.none_or]
      | some n => rw [hsame n hbefore, Option.some_or]
  · have hkept : ∀ {c : Int} {vs : List Int}, pinAll (· ≤ 0) s.total vs = some c → c = s.total :=
      fun h => (eq_or_of_pinAll h).resolve_right fun hblank => htotal hblank.1
    have hfixed : 0 < s₂.total := by rw [hkept htotal₂]; omega
    refine iff_of_true ⟨s₂.total, ?_, ?_⟩ fun h => absurd h htotal
    · rw [hkept htotal₁, htotal₂]
    · rw [settledTotal_of_pos _ hfixed, settledTotal_of_pos _ hfixed]

theorem ne_empty_of_mem_names {blocks : List Block} : ∀ name ∈ names blocks, name ≠ "" := by
  intro name hname
  obtain ⟨line, -, hvalue⟩ := List.mem_filterMap.mp hname
  cases line with
  | contentDisposition value =>
      simp only [HeaderLine.name?] at hvalue
      split at hvalue
      · simp at hvalue
      next hne => exact Option.some.inj hvalue ▸ hne
  | _ => simp [HeaderLine.name?] at hvalue

/-- The name: fed first with the blocks, it is settled as without them exactly when their first name
is the final block's. -/
theorem settledName_eq_iff {probing : Bool} {fallback name : String} {given own : List String}
    (hgiven : ∀ n ∈ given, n ≠ "") (hown : ∀ n ∈ own, n ≠ "") :
    settledName probing fallback (Seen.firstName (Seen.firstName name given) own) =
        settledName probing fallback (Seen.firstName name own) ↔
      (name = "" → ∀ n ∈ given.head?, own.head?.getD (if probing then fallback else "") = n) := by
  by_cases hname : name = ""
  · rw [imp_iff_right hname, hname]
    cases given with
    | nil => simp [Seen.firstName]
    | cons n given =>
        have hn := hgiven n List.mem_cons_self
        cases own with
        | nil => cases probing <;> simp [Seen.firstName, settledName, hn, eq_comm]
        | cons m own =>
            have hm := hown m List.mem_cons_self
            simp [Seen.firstName, settledName, hn, hm, eq_comm]
  · simp [Seen.firstName, hname]

/-! ### The final response -/

theorem applyAll_eq_none_of_fed {probing full : Bool} {s s₁ : Seen} {blocks : List Block}
    {final : Block} (h₁ : s.applyAll probing full (headers blocks) = some s₁)
    (hnone : s.applyAll probing full (headers [final]) = none) :
    s₁.applyAll probing full (headers [final]) = none := by
  obtain ⟨haccepts₁, -⟩ := (Seen.applyAll_eq_some_iff _ _ _ _ _).mp h₁
  by_contra hsome
  obtain ⟨s₂, h₂⟩ := Option.ne_none_iff_exists'.mp hsome
  obtain ⟨haccepts₂, -⟩ := (Seen.applyAll_eq_some_iff _ _ _ _ _).mp h₂
  -- none of the registers refused, so they would have taken the final block at the start
  have htaken : ∀ {α : Type} [DecidableEq α] {blank : α → Prop} [DecidablePred blank]
      {cur c d : α} {vs ws : List α}, pinAll blank cur vs = some c → pinAll blank c ws = some d →
      ∃ e, pinAll blank cur ws = some e := by
    intro α _ blank _ cur c d vs ws hfed htaken
    refine Option.ne_none_iff_exists'.mp fun hrefused => ?_
    rw [pinAll_eq_none_of_fed hfed hrefused] at htaken
    simp at htaken
  obtain ⟨total, htotal⟩ := htaken haccepts₁.total haccepts₂.total
  obtain ⟨etag, hetag⟩ := htaken haccepts₁.etag haccepts₂.etag
  obtain ⟨modified, hmodified⟩ := htaken haccepts₁.lastModified haccepts₂.lastModified
  let cs := (headers [final]).foldl (Seen.track probing) (s.code, s.size)
  have hall := (Seen.applyAll_eq_some_iff probing full s
    ⟨cs.1, cs.2, total, etag, modified, _⟩ (headers [final])).mpr
    ⟨⟨haccepts₂.status, htotal, hetag, hmodified⟩, rfl, rfl⟩
  rw [hnone] at hall
  simp at hall

/-- Once both are accepted, the registers fix the same exactly when the blocks add nothing. -/
theorem addsNothing_iff {urlLib : UrlLib} {t : TaskCtx} {i : Nat} {blocks : List Block}
    {final : Block} {s₁ s₂ : Seen} (hsize : (t.seen i).size = 0)
    (h₁ : (t.seen i).applyAll t.probing (t.fullStreamOk i) (headers blocks) = some s₁)
    (h₂ : (t.seen i).applyAll t.probing (t.fullStreamOk i) (headers [final]) = some s₂) :
    AddsNothing urlLib t blocks final ↔
      ∃ s₃, s₁.applyAll t.probing (t.fullStreamOk i) (headers [final]) = some s₃ ∧
        settledTotal t.probing s₃.total s₃.size = settledTotal t.probing s₂.total s₂.size ∧
        s₃.etag = s₂.etag ∧ s₃.lastModified = s₂.lastModified ∧
        settledName t.probing (fallbackName urlLib t.url) s₃.filename =
          settledName t.probing (fallbackName urlLib t.url) s₂.filename := by
  obtain ⟨haccepts₁, hname₁, -⟩ := (Seen.applyAll_eq_some_iff _ _ _ _ _).mp h₁
  obtain ⟨haccepts₂, hname₂, -⟩ := (Seen.applyAll_eq_some_iff _ _ _ _ _).mp h₂
  have htotals := settledTotal_eq_iff hsize h₁ h₂
  have hetags := pinAll_fed_iff haccepts₁.etag haccepts₂.etag
  have hmodified := pinAll_fed_iff haccepts₁.lastModified haccepts₂.lastModified
  have hname₁ : s₁.filename = Seen.firstName (t.seen i).filename (names blocks) := hname₁
  have hname₂ : s₂.filename = Seen.firstName (t.seen i).filename (names [final]) := hname₂
  have hnames := @settledName_eq_iff t.probing (fallbackName urlLib t.url) (t.seen i).filename
    (names blocks) (names [final]) ne_empty_of_mem_names ne_empty_of_mem_names
  rw [← hname₁, ← hname₂] at hnames
  constructor
  · intro h
    obtain ⟨total, htaken, hsettled⟩ := htotals.mpr h.size
    refine ⟨⟨_, _, total, s₂.etag, s₂.lastModified, _⟩, (Seen.applyAll_eq_some_iff _ _ _ _ _).mpr
      ⟨⟨haccepts₂.status, htaken, hetags.mpr h.etag, hmodified.mpr h.lastModified⟩, rfl, rfl⟩,
      hsettled, rfl, rfl, hnames.mpr h.name⟩
  · rintro ⟨s₃, h₃, htotal, hetag, hlast, hname⟩
    obtain ⟨haccepts₃, hname₃, htrack₃⟩ := (Seen.applyAll_eq_some_iff _ _ _ _ _).mp h₃
    refine ⟨htotals.mp ⟨s₃.total, haccepts₃.total, ?_⟩, hetags.mp ?_, hmodified.mp ?_,
      hnames.mp ?_⟩
    · rw [← htrack₃]
      exact htotal
    · exact hetag ▸ haccepts₃.etag
    · exact hlast ▸ haccepts₃.lastModified
    · exact (congrArg _ hname₃).symm.trans hname

theorem headers_code {probing full : Bool} {s s' : Seen} {final : Block}
    (h : s.applyAll probing full (headers [final]) = some s') : s'.code = final.code := by
  obtain ⟨-, -, htrack⟩ := (Seen.applyAll_eq_some_iff _ _ _ _ _).mp h
  rw [headers_singleton] at htrack
  exact (congrArg Prod.fst htrack).trans (track_block_code probing final _)

theorem feed_append (t : TaskCtx) (i : Nat) (lines lines' : List String) :
    feed t i (lines ++ lines') =
      if (feed t i lines).2 then feed (feed t i lines).1 i lines' else feed t i lines := by
  induction lines generalizing t with
  | nil => rfl
  | cons line lines ih =>
      rw [List.cons_append, feed, feed]
      rcases headerCb t i line with ⟨t', consumed⟩
      cases consumed with
      | true => exact ih t'
      | false => rfl

section Connection

variable {t : TaskCtx} {i : Nat}

theorem feed_blocks (hstatus : t.status ≠ .error) (hcancel : t.cancelReq = false)
    (hi : i < t.partCtx.length) (blocks : List Block) :
    ActsAs t i (feed t i (blocks.flatMap Block.lines))
      ((t.seen i).applyAll t.probing (t.fullStreamOk i) (headers blocks)) := by
  have hlines : ∀ line ∈ blocks.flatMap Block.lines, line ≠ "" := by
    intro line hline
    obtain ⟨b, -, hb⟩ := List.mem_flatMap.mp hline
    exact b.line_ne line hb
  rw [← map_lines]
  exact feed_actsAs hstatus hcancel hi hlines

theorem feed_of_refused (hstatus : t.status ≠ .error) (hcancel : t.cancelReq = false)
    (hi : i < t.partCtx.length) {blocks : List Block}
    (happly : (t.seen i).applyAll t.probing (t.fullStreamOk i) (headers blocks) = none) :
    ∃ t', feed t i (blocks.flatMap Block.lines) = (t', false) ∧ t'.status = .error := by
  have hacts := feed_blocks hstatus hcancel hi blocks
  rw [happly] at hacts
  exact ⟨_, Prod.ext rfl hacts.1, hacts.2⟩

theorem feed_of_taken (hstatus : t.status ≠ .error) (hcancel : t.cancelReq = false)
    (hi : i < t.partCtx.length) {blocks : List Block} {s : Seen}
    (happly : (t.seen i).applyAll t.probing (t.fullStreamOk i) (headers blocks) = some s) :
    ∃ t', feed t i (blocks.flatMap Block.lines) = (t', true) ∧ t'.seen i = s ∧
      t'.shell = t.shell ∧ t'.partCtx.length = t.partCtx.length := by
  have hacts := feed_blocks hstatus hcancel hi blocks
  rw [happly] at hacts
  exact ⟨_, Prod.ext rfl hacts.1, hacts.2⟩

theorem fixedBy_of_refused (cfg : HttpConfig) (env : WriteEnv) (fs : Fs)
    (hstatus : t.status ≠ .error) (hcancel : t.cancelReq = false) (hi : i < t.partCtx.length)
    {blocks : List Block}
    (happly : (t.seen i).applyAll t.probing (t.fullStreamOk i) (headers blocks) = none) :
    fixedBy cfg env fs t i (blocks.flatMap Block.lines) = none := by
  obtain ⟨t', hfeed, -⟩ := feed_of_refused hstatus hcancel hi happly
  rw [fixedBy, hfeed]

theorem fixedBy_of_taken (cfg : HttpConfig) (env : WriteEnv) (fs : Fs)
    (hstatus : t.status ≠ .error) (hcancel : t.cancelReq = false) (hi : i < t.partCtx.length)
    {blocks : List Block} {s : Seen}
    (happly : (t.seen i).applyAll t.probing (t.fullStreamOk i) (headers blocks) = some s) :
    ∃ t', t'.seen i = s ∧ t'.shell = t.shell ∧
      fixedBy cfg env fs t i (blocks.flatMap Block.lines) =
        some (probed cfg env fs t' i).1.fixed := by
  obtain ⟨t', hfeed, hseen, hshell, -⟩ := feed_of_taken hstatus hcancel hi happly
  refine ⟨t', hseen, hshell, ?_⟩
  rw [fixedBy, hfeed]

theorem fixedBy_append (cfg : HttpConfig) (env : WriteEnv) (fs : Fs) {t' : TaskCtx}
    {lines : List String} (lines' : List String) (hfeed : feed t i lines = (t', true)) :
    fixedBy cfg env fs t i (lines ++ lines') = fixedBy cfg env fs t' i lines' := by
  rw [fixedBy, feed_append, hfeed, fixedBy]
  rfl

/-- **When the final response decides.** On a connection just built, the blocks before the final one
leave no trace if and only if they agree with the task and among themselves, and add nothing to what
an acceptable final block gives by itself. -/
theorem finalDecides_iff (cfg : HttpConfig) (env : WriteEnv) (fs : Fs) (hstatus : t.status ≠ .error)
    (hcancel : t.cancelReq = false) (hi : i < t.partCtx.length) (blocks : List Block)
    (final : Block) :
    FinalDecides cfg env fs (Worker.buildEasyForPart t i) i blocks final ↔
      Agrees (Worker.buildEasyForPart t i) i blocks ∧
        (Agrees (Worker.buildEasyForPart t i) i [final] →
          AddsNothing env.probe.urlLib (Worker.buildEasyForPart t i) blocks final) := by
  have hbuilt : (Worker.buildEasyForPart t i).status = t.status ∧
      (Worker.buildEasyForPart t i).cancelReq = t.cancelReq := ⟨rfl, rfl⟩
  have hctxs : (Worker.buildEasyForPart t i).partCtx.length = t.partCtx.length := by
    simp [Worker.buildEasyForPart]
  have hsize : ((Worker.buildEasyForPart t i).seen i).size = 0 := by
    simp only [seen, Worker.buildEasyForPart, modifyCtx_ctx_self hi]
  rw [← hbuilt.1] at hstatus
  rw [← hbuilt.2] at hcancel
  rw [← hctxs] at hi
  generalize Worker.buildEasyForPart t i = t at hstatus hcancel hi hsize ⊢
  have hlines : final.lines = [final].flatMap Block.lines := by simp
  simp only [FinalDecides, agrees_iff, List.flatMap_append, hlines]
  cases h₁ : (t.seen i).applyAll t.probing (t.fullStreamOk i) (headers blocks) with
  | none =>
      obtain ⟨t₁, hfeed, herror⟩ := feed_of_refused hstatus hcancel hi h₁
      rw [hfeed]
      exact iff_of_false (fun h => h.1 herror) (by simp)
  | some s₁ =>
      obtain ⟨t₁, hfeed, hseen, hshell, hlength⟩ := feed_of_taken hstatus hcancel hi h₁
      have hstatus₁ : t₁.status ≠ .error := by
        rw [of_shell TaskCtx.status (fun _ => rfl) hshell]
        exact hstatus
      have hcancel₁ : t₁.cancelReq = false := by
        rw [of_shell TaskCtx.cancelReq (fun _ => rfl) hshell]
        exact hcancel
      have hprobing : t₁.probing = t.probing := of_shell TaskCtx.probing (fun _ => rfl) hshell
      have hfull : t₁.fullStreamOk i = t.fullStreamOk i :=
        of_shell (TaskCtx.fullStreamOk · i) (fun _ => rfl) hshell
      have hafter : (t₁.seen i).applyAll t₁.probing (t₁.fullStreamOk i) (headers [final]) =
          s₁.applyAll t.probing (t.fullStreamOk i) (headers [final]) := by
        rw [hseen, hprobing, hfull]
      rw [fixedBy_append cfg env fs _ hfeed, hfeed, and_iff_right hstatus₁, Option.isSome_some,
        and_iff_right rfl]
      cases h₂ : (t.seen i).applyAll t.probing (t.fullStreamOk i) (headers [final]) with
      | none =>
          have hrefused := hafter.trans (applyAll_eq_none_of_fed h₁ h₂)
          rw [fixedBy_of_refused cfg env fs hstatus₁ hcancel₁ (hlength ▸ hi) hrefused,
            fixedBy_of_refused cfg env fs hstatus hcancel hi h₂]
          simp
      | some s₂ =>
          obtain ⟨t₂, hseen₂, hshell₂, hfixed₂⟩ := fixedBy_of_taken cfg env fs hstatus hcancel hi h₂
          rw [hfixed₂, Option.isSome_some, imp_iff_right rfl, addsNothing_iff hsize h₁ h₂]
          cases h₃ : s₁.applyAll t.probing (t.fullStreamOk i) (headers [final]) with
          | none =>
              rw [fixedBy_of_refused cfg env fs hstatus₁ hcancel₁ (hlength ▸ hi) (hafter.trans h₃)]
              simp
          | some s₃ =>
              obtain ⟨t₃, hseen₃, hshell₃, hfixed₃⟩ :=
                fixedBy_of_taken cfg env fs hstatus₁ hcancel₁ (hlength ▸ hi) (hafter.trans h₃)
              have hcode : (t₃.seen i).code = (t₂.seen i).code := by
                rw [hseen₃, hseen₂, headers_code h₃, headers_code h₂]
              have hprobing₃ : t₃.probing = t.probing :=
                of_shell TaskCtx.probing (fun _ => rfl) (hshell₃.trans hshell)
              have hurl₃ : t₃.url = t.url :=
                of_shell TaskCtx.url (fun _ => rfl) (hshell₃.trans hshell)
              have hfixed := fixed_eq_iff cfg env fs
                ((hshell₃.trans hshell).trans hshell₂.symm) hcode
              rw [hseen₃, hseen₂, hprobing₃, hurl₃] at hfixed
              simp only [hfixed₃, Option.some.injEq, exists_eq_left']
              exact hfixed

end Connection

def redirectBlock : Block where
  statusLine := "HTTP/1.1 302 Found\r\n"
  code := 302
  fields := ["Content-Length: 100\r\n", "Location: /file.bin\r\n", "\r\n"]
  status_eq := by decide
  fields_ne := by decide
  fields_plain := by
    have hparsed : ["Content-Length: 100\r\n", "Location: /file.bin\r\n", "\r\n"].map parseHeaderLine =
        [.contentLength (some 100), .other, .blank] := by decide
    simp_all

def fullBlock : Block where
  statusLine := "HTTP/1.1 200 OK\r\n"
  code := 200
  fields := ["Content-Length: 5000\r\n", "\r\n"]
  status_eq := by decide
  fields_ne := by decide
  fields_plain := by
    have hparsed : ["Content-Length: 5000\r\n", "\r\n"].map parseHeaderLine =
        [.contentLength (some 5000), .blank] := by decide
    simp_all

def freshTask : TaskCtx := taskCreateNew "http://h/file.bin" "" "/d"

/-- Behind a redirect the resource is fixed with the size of the redirect page. -/
theorem not_finalDecides_redirect :
    ¬ FinalDecides plainCfg grantAll emptyFs (Worker.buildEasyForPart freshTask 0) 0
      [redirectBlock] fullBlock := by
  decide +kernel

def continueBlock : Block where
  statusLine := "HTTP/1.1 100 Continue\r\n"
  code := 100
  fields := ["\r\n"]
  status_eq := by decide
  fields_ne := by decide
  fields_plain := by
    have hparsed : parseHeaderLine "\r\n" = .blank := by decide
    simp [hparsed]

/-- Behind an interim response it is fixed with its own. -/
theorem finalDecides_iff_continue :
    FinalDecides plainCfg grantAll emptyFs (Worker.buildEasyForPart freshTask 0) 0
      [continueBlock] fullBlock := by
  have hgiven : totals [continueBlock] = [] ∧ countedLengths [continueBlock] = [] ∧
      etags [continueBlock] = [] ∧ lastModifieds [continueBlock] = [] ∧
      names [continueBlock] = [] := by decide
  obtain ⟨htotals, hlengths, hetags, hmodifieds, hnames⟩ := hgiven
  refine (finalDecides_iff plainCfg grantAll emptyFs (by decide) rfl (by decide) [continueBlock]
    fullBlock).mpr ⟨⟨by simp [continueBlock], ?_, ?_, ?_⟩, fun _ => ⟨?_, ?_, ?_, ?_⟩⟩
  · rw [htotals]; rfl
  · rw [hetags]; rfl
  · rw [hmodifieds]; rfl
  · simp [sizeBefore, htotals, hlengths]
  · simp [hetags]
  · simp [hmodifieds]
  · simp [hnames]

end DownloadWrapper
