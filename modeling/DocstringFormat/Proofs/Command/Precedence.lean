import DocstringFormat.Command.Arguments

/-!
Which layer decides an option.

The command line lies over the configuration file, and the file over the defaults (`layered`).  The
options of a run are `combined` from the layers (`options_eq_ok_iff`), and they follow this order in
all but one case (`options_precedence`): black mode widens a limit that equals its default, and the
switch on the command line comes after the file, so it also widens a limit that the file itself sets
to the default (`Overruled`).
-/

set_option autoImplicit false

namespace DocstringFormat.Command

open Markup (Style)

/-- The value of the upper layer, else that of the lower one, else the default. -/
def layered {α : Type} (upper lower : Option α) (default : α) : α :=
  (upper.or lower).getD default

def fileIsBlack (c : Config) : Bool :=
  c.black == some true

/-- The column limit that the layers ask for. -/
def askedColumns (a : Arguments) (c : Config) (default : Nat) (upper lower : Option Nat) : Nat :=
  layered upper lower (if a.black || fileIsBlack c then blackColumns else default)

/-- Whether the black switch of the command line meets a limit that the file sets to the default. -/
def Overruled (a : Arguments) (default : Nat) (upper lower : Option Nat) : Prop :=
  a.black = true ∧ upper = none ∧ lower = some default

/-- The words that the command line keeps in lowercase, if it names any. -/
def givenWords (a : Arguments) : Option (List Text) :=
  if a.nonCap = [] then none else some a.nonCap

/-- Every option but the column limits has the value of the upper layer that gives one, and a
switch is on exactly if one of the layers turns it on. -/
structure Prevails (a : Arguments) (c : Config) (o : Options) : Prop where
  tabWidth : o.tabWidth = layered a.tabWidth c.tabWidth 1
  style : o.style = layered a.style (c.style.bind Style.ofName?) .sphinx
  nonCap : o.nonCap = layered (givenWords a) c.nonCap []
  lineRange : o.lineRange = (rangeOf? a.range).or c.range
  lengthRange : o.lengthRange = (rangeOf? a.docstringLength).or c.docstringLength
  preSummaryNewline : o.preSummaryNewline = true ↔
    a.preSummaryNewline = true ∨ c.preSummaryNewline = some true
  postDescriptionBlank : o.postDescriptionBlank = true ↔
    a.postDescriptionBlank = true ∨ c.postDescriptionBlank = some true
  makeSummaryMultiLine : o.makeSummaryMultiLine = true ↔
    a.makeSummaryMultiLine = true ∨ c.makeSummaryMultiLine = some true
  closeQuotesOnNewline : o.closeQuotesOnNewline = true ↔
    a.closeQuotesOnNewline = true ∨ c.closeQuotesOnNewline = some true
  forceWrap : o.forceWrap = true ↔ a.forceWrap = true ∨ c.forceWrap = some true
  nonStrict : o.nonStrict = true ↔ a.nonStrict = true ∨ c.nonStrict = some true

/-- A range, if there is one, starts at one or later and not after its end. -/
def InOrder (range : Option RowRange) : Prop :=
  ∀ r, range = some r → 0 < r.first ∧ r.first ≤ r.last

/-- The layers go together: the file names a style that there is, the ranges are in order, and the
tab width is positive. -/
structure Acceptable (a : Arguments) (c : Config) : Prop where
  style : ∀ name, c.style = some name → (Style.ofName? name).isSome = true
  lineRange : InOrder ((rangeOf? a.range).or c.range)
  lengthRange : InOrder ((rangeOf? a.docstringLength).or c.docstringLength)
  tabWidth : 0 < layered a.tabWidth c.tabWidth 1

private theorem bind_eq_ok {α β : Type} {x : Except Error α} {f : α → Except Error β} {b : β} :
    (x >>= f) = .ok b ↔ ∃ a, x = .ok a ∧ f a = .ok b := by
  cases x with
  | error cause => simp [bind, Except.bind]
  | ok a => simp [bind, Except.bind]

section Validation

private theorem validate_range_eq_ok (name : Text) (r : RowRange) :
    r.validate name = .ok () ↔ InOrder (some r) := by
  have hrange : InOrder (some r) ↔ 0 < r.first ∧ r.first ≤ r.last := by simp [InOrder]
  rw [hrange]
  unfold RowRange.validate
  split
  · simp_all
  · split
    · simp only [reduceCtorEq, false_iff]
      omega
    · simp only [true_iff]
      omega

private theorem check_range_eq_ok (name : Text) (range : Option RowRange)
    (rest : Unit → Except Error Unit) :
    (match range with
      | some r => r.validate name >>= rest
      | _ => rest ()) = .ok () ↔ InOrder range ∧ rest () = .ok () := by
  cases range with
  | none => simp [InOrder]
  | some r =>
    rw [← validate_range_eq_ok name r, bind_eq_ok]
    exact ⟨fun ⟨_, hv, hrest⟩ => ⟨hv, hrest⟩, fun ⟨hv, hrest⟩ => ⟨(), hv, hrest⟩⟩

private theorem validate_eq_ok (o : Options) :
    o.validate = .ok () ↔ InOrder o.lineRange ∧ InOrder o.lengthRange ∧ 0 < o.tabWidth := by
  have htab : (if o.tabWidth = 0 then
      Except.error (Error.invalidOption "--tab-width must be at least 1".toList) else .ok ()) =
        Except.ok () ↔ 0 < o.tabWidth := by
    split
    · simp_all
    · simp only [true_iff]
      omega
  refine (check_range_eq_ok _ _ _).trans (and_congr_right fun _ => ?_)
  exact (check_range_eq_ok _ _ _).trans (and_congr_right fun _ => htab)

end Validation

section Columns

def widened (black : Bool) (default columns : Nat) : Nat :=
  if black = true ∧ columns = default then blackColumns else columns

/-- The column limit that comes out of both layers: each lays its own limit over what black mode
made of the limit below. -/
def combinedColumns (a : Arguments) (c : Config) (default : Nat) (upper lower : Option Nat) : Nat :=
  upper.getD (widened a.black default (lower.getD (widened (fileIsBlack c) default default)))

private theorem withBlack_if (o : Options) (black : Bool) :
    (if black then o.withBlack true else o) =
      { o with
        wrapSummaries := widened black defaultSummaryColumns o.wrapSummaries
        wrapDescriptions := widened black defaultDescriptionColumns o.wrapDescriptions
        preSummarySpace := black || o.preSummarySpace
        black := black || o.black } := by
  cases black with
  | false => simp [widened]
  | true => simp [widened, Options.withBlack]

variable {a : Arguments} {c : Config} {default : Nat} {upper lower : Option Nat}

private theorem combinedColumns_of_overruled (h : Overruled a default upper lower) :
    combinedColumns a c default upper lower = blackColumns := by
  obtain ⟨hblack, rfl, rfl⟩ := h
  simp [combinedColumns, widened, hblack]

private theorem combinedColumns_eq_iff (hdefault : default ≠ blackColumns) :
    combinedColumns a c default upper lower = askedColumns a c default upper lower ↔
      ¬ Overruled a default upper lower := by
  unfold combinedColumns askedColumns layered Overruled widened
  cases upper with
  | some n => simp
  | none =>
    cases lower with
    | some m =>
      by_cases hm : m = default
      · subst hm
        cases a.black with
        | false => simp
        | true => simpa using Ne.symm hdefault
      · simp [hm]
    | none =>
      cases a.black with
      | false => simp
      | true => cases fileIsBlack c <;> simp

end Columns

section Layers

variable {a : Arguments} {c : Config} {o : Options}

def combined (a : Arguments) (c : Config) : Options where
  wrapSummaries := combinedColumns a c defaultSummaryColumns a.wrapSummaries c.wrapSummaries
  wrapDescriptions :=
    combinedColumns a c defaultDescriptionColumns a.wrapDescriptions c.wrapDescriptions
  tabWidth := layered a.tabWidth c.tabWidth 1
  preSummaryNewline := a.preSummaryNewline || c.preSummaryNewline.getD false
  preSummarySpace := a.preSummarySpace || (a.black || c.preSummarySpace.getD (fileIsBlack c))
  postDescriptionBlank := a.postDescriptionBlank || c.postDescriptionBlank.getD false
  makeSummaryMultiLine := a.makeSummaryMultiLine || c.makeSummaryMultiLine.getD false
  closeQuotesOnNewline := a.closeQuotesOnNewline || c.closeQuotesOnNewline.getD false
  forceWrap := a.forceWrap || c.forceWrap.getD false
  nonStrict := a.nonStrict || c.nonStrict.getD false
  style := layered a.style (c.style.bind Style.ofName?) .sphinx
  nonCap := layered (givenWords a) c.nonCap []
  black := a.black || fileIsBlack c
  lineRange := (rangeOf? a.range).or c.range
  lengthRange := (rangeOf? a.docstringLength).or c.docstringLength

private theorem prevails_combined (a : Arguments) (c : Config) : Prevails a c (combined a c) := by
  have hswitch : ∀ (on : Bool) (setting : Option Bool),
      (on || setting.getD false) = true ↔ on = true ∨ setting = some true := by
    intro on setting
    rcases setting with _ | _ | _ <;> simp
  constructor
  case tabWidth | style | nonCap | lineRange | lengthRange => rfl
  all_goals exact hswitch _ _

private def fileOptions (c : Config) (style : Style) : Options where
  wrapSummaries :=
    c.wrapSummaries.getD (widened (fileIsBlack c) defaultSummaryColumns defaultSummaryColumns)
  wrapDescriptions := c.wrapDescriptions.getD
    (widened (fileIsBlack c) defaultDescriptionColumns defaultDescriptionColumns)
  tabWidth := c.tabWidth.getD 1
  preSummaryNewline := c.preSummaryNewline.getD false
  preSummarySpace := c.preSummarySpace.getD (fileIsBlack c)
  postDescriptionBlank := c.postDescriptionBlank.getD false
  makeSummaryMultiLine := c.makeSummaryMultiLine.getD false
  closeQuotesOnNewline := c.closeQuotesOnNewline.getD false
  forceWrap := c.forceWrap.getD false
  nonStrict := c.nonStrict.getD false
  style := style
  nonCap := c.nonCap.getD []
  black := fileIsBlack c
  lineRange := c.range
  lengthRange := c.docstringLength

private theorem config_apply_eq (c : Config) :
    c.apply {} =
      match c.style with
      | none => .ok (fileOptions c .sphinx)
      | some name => (Style.ofName name).map (fileOptions c) := by
  unfold Config.apply fileOptions
  rcases hb : c.black with _ | _ | _
  all_goals
    cases c.style with
    | none =>
      simp [bind, Except.bind, pure, Except.pure, fileIsBlack, hb, widened, Options.withBlack]
    | some name =>
      cases hn : Style.ofName name with
      | error cause => simp [bind, Except.bind, Except.map, hn]
      | ok style =>
        simp [bind, Except.bind, pure, Except.pure, Except.map, hn, fileIsBlack, hb, widened,
          Options.withBlack]

private theorem arguments_apply_eq (a : Arguments) (o : Options) :
    a.apply o = { o with
      wrapSummaries := a.wrapSummaries.getD (widened a.black defaultSummaryColumns o.wrapSummaries)
      wrapDescriptions := a.wrapDescriptions.getD
        (widened a.black defaultDescriptionColumns o.wrapDescriptions)
      tabWidth := a.tabWidth.getD o.tabWidth
      preSummaryNewline := a.preSummaryNewline || o.preSummaryNewline
      preSummarySpace := a.preSummarySpace || (a.black || o.preSummarySpace)
      postDescriptionBlank := a.postDescriptionBlank || o.postDescriptionBlank
      makeSummaryMultiLine := a.makeSummaryMultiLine || o.makeSummaryMultiLine
      closeQuotesOnNewline := a.closeQuotesOnNewline || o.closeQuotesOnNewline
      forceWrap := a.forceWrap || o.forceWrap
      nonStrict := a.nonStrict || o.nonStrict
      style := a.style.getD o.style
      nonCap := (givenWords a).getD o.nonCap
      black := a.black || o.black
      lineRange := (rangeOf? a.range).or o.lineRange
      lengthRange := (rangeOf? a.docstringLength).or o.lengthRange } := by
  simp only [Arguments.apply, withBlack_if, givenWords]
  split <;> simp_all

private theorem apply_fileOptions (a : Arguments) {c : Config} {style : Style}
    (hstyle : (c.style.bind Style.ofName?).getD .sphinx = style) :
    a.apply (fileOptions c style) = combined a c := by
  have hget : ∀ {α : Type} (upper lower : Option α) (default : α),
      upper.getD (lower.getD default) = layered upper lower default := by
    intro α upper lower default
    cases upper <;> rfl
  subst hstyle
  simp only [arguments_apply_eq, fileOptions, combined, combinedColumns, hget]

private theorem apply_config_eq_ok {base : Options} :
    c.apply {} = .ok base ↔
      (∀ name, c.style = some name → (Style.ofName? name).isSome = true) ∧
        fileOptions c ((c.style.bind Style.ofName?).getD .sphinx) = base := by
  rw [config_apply_eq]
  cases c.style with
  | none => simp
  | some name => cases hn : Style.ofName? name <;> simp [Style.ofName, hn, Except.map]

private theorem options_eq_ok_iff : a.options c = .ok o ↔ Acceptable a c ∧ combined a c = o := by
  have hvalid : (combined a c).validate = .ok () ↔
      InOrder ((rangeOf? a.range).or c.range) ∧
        InOrder ((rangeOf? a.docstringLength).or c.docstringLength) ∧
        0 < layered a.tabWidth c.tabWidth 1 := validate_eq_ok _
  unfold Arguments.options
  simp only [bind_eq_ok, apply_config_eq_ok, pure, Except.pure, Except.ok.injEq]
  constructor
  · rintro ⟨base, ⟨hstyle, rfl⟩, _, hv, ho⟩
    rw [apply_fileOptions a rfl] at hv ho
    obtain ⟨hline, hlength, htab⟩ := hvalid.mp hv
    exact ⟨⟨hstyle, hline, hlength, htab⟩, ho⟩
  · rintro ⟨⟨hstyle, hline, hlength, htab⟩, ho⟩
    refine ⟨_, ⟨hstyle, rfl⟩, (), ?_, ?_⟩
    · rw [apply_fileOptions a rfl]
      exact hvalid.mpr ⟨hline, hlength, htab⟩
    · rw [apply_fileOptions a rfl]
      exact ho

end Layers

/-- Options come out of acceptable layers only.  Then every option follows the precedence of the
layers, and a column limit does so exactly if it is not overruled; an overruled limit is that of
black mode. -/
theorem options_precedence (a : Arguments) (c : Config) :
    ((∃ o, a.options c = .ok o) ↔ Acceptable a c) ∧
      ∀ o, a.options c = .ok o →
        Prevails a c o ∧
        (o.wrapSummaries = askedColumns a c 79 a.wrapSummaries c.wrapSummaries ↔
          ¬ Overruled a 79 a.wrapSummaries c.wrapSummaries) ∧
        (o.wrapDescriptions = askedColumns a c 72 a.wrapDescriptions c.wrapDescriptions ↔
          ¬ Overruled a 72 a.wrapDescriptions c.wrapDescriptions) ∧
        (Overruled a 79 a.wrapSummaries c.wrapSummaries → o.wrapSummaries = 88) ∧
        (Overruled a 72 a.wrapDescriptions c.wrapDescriptions → o.wrapDescriptions = 88) := by
  refine ⟨⟨fun ⟨o, ho⟩ => (options_eq_ok_iff.mp ho).1,
    fun h => ⟨combined a c, options_eq_ok_iff.mpr ⟨h, rfl⟩⟩⟩, ?_⟩
  intro o ho
  obtain ⟨-, rfl⟩ := options_eq_ok_iff.mp ho
  exact ⟨prevails_combined a c, combinedColumns_eq_iff (by decide),
    combinedColumns_eq_iff (by decide), combinedColumns_of_overruled, combinedColumns_of_overruled⟩

/-- With the black switch a limit of 79 columns in the file becomes 88. -/
theorem black_switch_overrules_file :
    let a : Arguments := { files := ["a.py".toList], black := true }
    let c : Config := { wrapSummaries := some 79 }
    ∃ o, a.options c = .ok o ∧ o.wrapSummaries = 88 ∧
      askedColumns a c 79 a.wrapSummaries c.wrapSummaries = 79 := by
  intro a c
  have hover : Overruled a 79 a.wrapSummaries c.wrapSummaries := ⟨rfl, rfl, rfl⟩
  have haccept : Acceptable a c :=
    ⟨by simp [c], by simp [InOrder, rangeOf?, a, c], by simp [InOrder, rangeOf?, a, c], by decide⟩
  obtain ⟨o, ho⟩ := (options_precedence a c).1.mpr haccept
  obtain ⟨-, -, -, hblack, -⟩ := (options_precedence a c).2 o ho
  exact ⟨o, ho, hblack hover, rfl⟩

end DocstringFormat.Command
