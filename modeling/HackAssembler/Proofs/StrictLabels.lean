import Mathlib.Data.List.Nodup
import HackAssembler.Proofs.Assembly

/-! Strict labels. They refuse programs that declare a name which has an address, and change nothing else: such a
declaration does nothing where it is allowed, so that the program can do without it. -/
namespace HackAssembler

namespace Program

/-- Every declared name is declared once, and none is predefined. -/
def DeclaresOnce (lines : List Text) : Prop :=
  (declared lines).Nodup ∧ ∀ name ∈ declared lines, predefined? name = none

instance (lines : List Text) : Decidable (DeclaresOnce lines) := inferInstanceAs (Decidable (_ ∧ _))

/-- What is left of lines that stand behind `earlier` ones without those that redeclare a name. -/
def essentialFrom (earlier : List Text) : List Text → List Text
  | [] => []
  | line :: rest =>
    if Redeclares earlier line then essentialFrom (earlier ++ [line]) rest
    else line :: essentialFrom (earlier ++ [line]) rest

def essential (lines : List Text) : List Text := essentialFrom [] lines

variable {lines : List Text} {line : Text}

/-! ### Redeclarations -/

theorem forall_not_redeclaredAt_concat_iff :
    (∀ i, ¬RedeclaredAt (lines ++ [line]) i) ↔ (∀ i, ¬RedeclaredAt lines i) ∧ ¬Redeclares lines line := by
  have hlast := redeclaredAt_length_iff lines line []
  constructor
  · intro h
    refine ⟨fun i hi => ?_, fun hline => h lines.length (hlast.2 hline)⟩
    exact h i ((redeclaredAt_append_iff hi.lt [line]).2 hi)
  · intro h i hi
    obtain ⟨hfront, hline⟩ := h
    have hlt := hi.lt
    rw [List.length_append, List.length_singleton] at hlt
    by_cases hi' : i < lines.length
    · exact hfront i ((redeclaredAt_append_iff hi' [line]).1 hi)
    · obtain rfl : i = lines.length := by omega
      exact hline (hlast.1 hi)

theorem redeclares_label_iff {name : Text} :
    Redeclares lines (Line.label name) ↔ predefined? name ≠ none ∨ name ∈ declared lines := by
  rw [Redeclares, Line.labelName_label, mem_declared_iff]
  simp

theorem not_redeclares_of_not_label (h : Line.isLabel line = false) : ¬Redeclares lines line := by
  intro hline
  rw [hline.1] at h
  cases h

theorem declaresOnce_iff : DeclaresOnce lines ↔ ∀ i, ¬RedeclaredAt lines i := by
  -- From the right: each line either declares a new name or leaves what is declared as it is.
  induction lines using List.reverseRecOn with
  | nil =>
    have hnone : ∀ i, ¬RedeclaredAt [] i := fun i hi => absurd hi.lt (Nat.not_lt_zero i)
    simp [DeclaresOnce, declared, hnone]
  | append_singleton lines line ih =>
    rw [forall_not_redeclaredAt_concat_iff, ← ih, DeclaresOnce, DeclaresOnce]
    cases hlabel : Line.isLabel line with
    | false =>
      have hline : ¬Redeclares lines line := not_redeclares_of_not_label hlabel
      rw [declared_concat_of_not_label hlabel, and_iff_left hline]
    | true =>
      rw [Line.isLabel_iff.1 hlabel]
      generalize Line.labelName line = name
      have hnodup : (declared lines ++ [name]).Nodup ↔ (declared lines).Nodup ∧ name ∉ declared lines := by
        rw [List.nodup_append_comm, List.singleton_append, List.nodup_cons, and_comm]
      have hall : (∀ n ∈ declared lines ++ [name], predefined? n = none) ↔
          (∀ n ∈ declared lines, predefined? n = none) ∧ predefined? name = none := by
        simp only [List.mem_append, List.mem_singleton, or_imp, forall_and, forall_eq]
      rw [declared_concat_label, redeclares_label_iff, hnodup, hall]
      tauto

/-! ### Lines that matter -/

theorem essentialFrom_concat (earlier lines : List Text) (line : Text) :
    essentialFrom earlier (lines ++ [line]) =
      essentialFrom earlier lines ++ if Redeclares (earlier ++ lines) line then [] else [line] := by
  induction lines generalizing earlier with
  | nil =>
    rw [List.append_nil, List.nil_append, essentialFrom, essentialFrom, essentialFrom, List.nil_append]
  | cons first rest ih =>
    have hrest := ih (earlier ++ [first])
    rw [List.append_assoc, List.singleton_append] at hrest
    rw [List.cons_append, essentialFrom, essentialFrom, hrest]
    split <;> rfl

theorem essential_concat_of_redeclares (h : Redeclares lines line) :
    essential (lines ++ [line]) = essential lines := by
  rw [essential, essentialFrom_concat, List.nil_append, if_pos h, List.append_nil, essential]

theorem essential_concat_of_not_redeclares (h : ¬Redeclares lines line) :
    essential (lines ++ [line]) = essential lines ++ [line] := by
  rw [essential, essentialFrom_concat, List.nil_append, if_neg h, essential]

theorem mem_of_mem_essential (h : line ∈ essential lines) : line ∈ lines := by
  induction lines using List.reverseRecOn with
  | nil => exact h
  | append_singleton lines last ih =>
    by_cases hlast : Redeclares lines last
    · rw [essential_concat_of_redeclares hlast] at h
      exact List.mem_append_left _ (ih h)
    · rw [essential_concat_of_not_redeclares hlast] at h
      exact List.mem_append.2 ((List.mem_append.1 h).imp_left ih)

/-- Nothing is redeclared where only the essential lines are left. -/
theorem not_redeclaredAt_essential (lines : List Text) (i : Nat) : ¬RedeclaredAt (essential lines) i := by
  induction lines using List.reverseRecOn generalizing i with
  | nil => exact fun hi => absurd hi.lt (Nat.not_lt_zero i)
  | append_singleton lines line ih =>
    by_cases hline : Redeclares lines line
    · rw [essential_concat_of_redeclares hline]
      exact ih i
    · rw [essential_concat_of_not_redeclares hline]
      refine forall_not_redeclaredAt_concat_iff.2 ⟨ih, fun hagain => hline ?_⟩ i
      exact ⟨hagain.1, hagain.2.imp_right mem_of_mem_essential⟩

theorem instructions_essential (lines : List Text) :
    Labels.instructions (essential lines) = Labels.instructions lines := by
  induction lines using List.reverseRecOn with
  | nil => rfl
  | append_singleton lines line ih =>
    by_cases hline : Redeclares lines line
    · have hskip : Labels.instructions [line] = [] := Labels.instructions_cons_of_isLabel hline.1 []
      rw [essential_concat_of_redeclares hline, Labels.instructions_append, ih, hskip, List.append_nil]
    · rw [essential_concat_of_not_redeclares hline, Labels.instructions_append, Labels.instructions_append, ih]

theorem labelSymbols_essential (lines : List Text) : labelSymbols (essential lines) = labelSymbols lines := by
  induction lines using List.reverseRecOn with
  | nil => rfl
  | append_singleton lines line ih =>
    cases hlabel : Line.isLabel line with
    | false =>
      have hline : ¬Redeclares lines line := not_redeclares_of_not_label hlabel
      rw [essential_concat_of_not_redeclares hline, labelSymbols_concat_of_not_label hlabel,
        labelSymbols_concat_of_not_label hlabel, ih]
    | true =>
      rw [Line.isLabel_iff.1 hlabel]
      generalize Line.labelName line = name
      by_cases hname : Redeclares lines (Line.label name)
      · have hbound := hname.2
        rw [Line.labelName_label] at hbound
        rw [essential_concat_of_redeclares hname, labelSymbols_concat_of_bound hbound, ih]
      · have hnew := hname
        rw [redeclares_label_iff, not_or, not_not, mem_declared_iff] at hnew
        have hnew' : Line.label name ∉ essential lines := fun hmem => hnew.2 (mem_of_mem_essential hmem)
        rw [essential_concat_of_not_redeclares hname, labelSymbols_concat_of_new hnew.1 hnew.2,
          labelSymbols_concat_of_new hnew.1 hnew', ih, instructions_essential]

end Program

namespace Labels
open Program

/-- Without redeclarations, strict labels bind what others bind. -/
theorem bind_strict_of_declaresOnce {lines : List Text} (h : DeclaresOnce lines) :
    bind true lines = bind false lines := by
  obtain ⟨t, ht⟩ := @exists_bind true lines fun _ => declaresOnce_iff.1 h
  obtain ⟨u, hu⟩ := @exists_bind false lines nofun
  have hsame : t.symbols = u.symbols := by rw [symbols_of_bind ht, symbols_of_bind hu]
  rw [ht, hu, SymbolTable.ext_symbols hsame]

/-- Redeclarations bind nothing: without them the labels are the same, in either mode. -/
theorem bind_essential (strict : Bool) (lines : List Text) :
    ∃ t, bind false lines = .ok t ∧ bind strict (essential lines) = .ok t := by
  obtain ⟨t, ht⟩ := @exists_bind false lines nofun
  obtain ⟨u, hu⟩ := @exists_bind strict (essential lines) fun _ => not_redeclaredAt_essential lines
  have hsame : u.symbols = t.symbols := by
    rw [symbols_of_bind ht, symbols_of_bind hu, labelSymbols_essential]
  refine ⟨t, ht, ?_⟩
  rw [hu, SymbolTable.ext_symbols hsame]

end Labels

namespace Failure

/-- The same fault, whatever place it points at. -/
def Same : Failure → Failure → Prop
  | .diagnostic d, .diagnostic e => d.cause = e.cause ∧ d.index = e.index
  | f, g => f = g

theorem same_locate (f : Failure) (file : Text) (lines lines' : List SourceLine) :
    (f.locate file lines).Same (f.locate file lines') := by
  cases f with
  | diagnostic d => simp [locate, Same]
  | setting | general | file | undecodable | literalTooLong | numberTooLong | unbound | suffix | unexpected => rfl

end Failure

namespace Assembly
open Program

/-- Two runs end in the same words and the same table, or in the same fault. -/
inductive Agree : Except Failure Assembly → Except Failure Assembly → Prop
  | ok {a b : Assembly} (words : a.words = b.words) (table : a.table = b.table) : Agree (.ok a) (.ok b)
  | error {f g : Failure} (fault : f.Same g) : Agree (.error f) (.error g)

theorem ofSourceLines_strict_of_declaresOnce {lines : List SourceLine} (h : DeclaresOnce (texts lines))
    (file : Text) : ofSourceLines true file lines = ofSourceLines false file lines := by
  have hbind := Labels.bind_strict_of_declaresOnce h
  unfold ofSourceLines
  simp only [hbind]

/-- Only the labels and the instructions of a program decide what it comes to. -/
theorem agree_of_bind {strict strict' : Bool} {lines lines' : List SourceLine} {t : SymbolTable}
    (h : Labels.bind strict (texts lines) = .ok t) (h' : Labels.bind strict' (texts lines') = .ok t)
    (hinstructions : Labels.instructions (texts lines) = Labels.instructions (texts lines')) (file : Text) :
    Agree (ofSourceLines strict file lines) (ofSourceLines strict' file lines') := by
  unfold ofSourceLines
  simp only [h, h', hinstructions]
  rcases Encoding.program t (Labels.instructions (texts lines')) with ⟨f | words, context⟩
  · exact .error (f.same_locate file _ _)
  · exact .ok rfl rfl

/-- Strict labels change nothing in a program that declares every name once. Any other one they refuse at the first
line that redeclares a name, where without them the program comes to what it comes to, in either mode, if all such
lines are taken out. -/
theorem strict_labels_only_refuse (file : Text) (lines : List SourceLine) :
    (DeclaresOnce (texts lines) → ofSourceLines true file lines = ofSourceLines false file lines) ∧
    (¬DeclaresOnce (texts lines) →
      (∃ i name d, IsLeast {i | RedeclaredAt (texts lines) i} i ∧
        (texts lines)[i]? = some (Line.label name) ∧
        ofSourceLines true file lines = .error (.diagnostic d) ∧
        d.cause = .duplicateSymbol name (some (address (texts lines) name)) ∧ d.index = some (i : Int)) ∧
      ∀ (strict : Bool) (rest : List SourceLine), texts rest = essential (texts lines) →
        Agree (ofSourceLines false file lines) (ofSourceLines strict file rest)) := by
  refine ⟨fun h => ofSourceLines_strict_of_declaresOnce h file, fun h => ⟨?_, ?_⟩⟩
  · rw [declaresOnce_iff, not_forall_not] at h
    obtain ⟨i, hleast⟩ := exists_isLeast h
    obtain ⟨d, name, hrun, hcause, hindex, hname⟩ := @error_of_redeclared true file lines i rfl hleast
    exact ⟨i, name, d, hleast, hname, hrun, hcause, hindex⟩
  · intro strict rest hrest
    obtain ⟨t, ht, ht'⟩ := Labels.bind_essential strict (texts lines)
    rw [← hrest] at ht'
    have hinstructions := instructions_essential (texts lines)
    rw [← hrest] at hinstructions
    exact agree_of_bind ht ht' hinstructions.symm file

/-- One label twice, one with a predefined name in between. -/
def redeclaring : List SourceLine :=
  Source.ofLines [Line.address ['x'], Line.label ['L'], Line.label ['S', 'P'], Line.address ['L'],
    Line.label ['L'], Line.address ['S', 'P']]

def declaringOnce : List SourceLine :=
  Source.ofLines [Line.address ['x'], Line.label ['L'], Line.address ['L'], Line.address ['S', 'P']]

theorem strict_labels_only_refuse_redeclaring :
    ¬DeclaresOnce (texts redeclaring) ∧
    (∃ d, ofSourceLines true ['f'] redeclaring = .error (.diagnostic d) ∧
      d.cause = .duplicateSymbol ['S', 'P'] (some 0) ∧ d.index = some 2) ∧
    (∃ a b, ofSourceLines false ['f'] redeclaring = .ok a ∧ ofSourceLines true ['f'] declaringOnce = .ok b ∧
      a.words = b.words ∧ a.table = b.table) ∧
    DeclaresOnce (texts declaringOnce) ∧
    ofSourceLines true ['f'] declaringOnce = ofSourceLines false ['f'] declaringOnce := by
  have htwice : ¬DeclaresOnce (texts redeclaring) := by decide +kernel
  have honce : DeclaresOnce (texts declaringOnce) := by decide +kernel
  have hessential : texts declaringOnce = essential (texts redeclaring) := by decide +kernel
  obtain ⟨⟨i, name, d, hleast, hname, hrun, hcause, hindex⟩, hagree⟩ :=
    (strict_labels_only_refuse ['f'] redeclaring).2 htwice
  have hfirst : i = 2 := by
    have hfront : ∀ j < 2, ¬RedeclaredAt (texts redeclaring) j := by decide +kernel
    have hthere : RedeclaredAt (texts redeclaring) 2 := by decide +kernel
    have hle := hleast.2 hthere
    by_contra hne
    exact hfront i (by omega) hleast.1
  subst hfirst
  obtain rfl : name = ['S', 'P'] := by
    have h := congrArg (Option.map Line.labelName) hname
    rw [Option.map_some, Line.labelName_label] at h
    exact (Option.some.inj h).symm
  have haddress : address (texts redeclaring) ['S', 'P'] = 0 := by decide +kernel
  rw [haddress] at hcause
  have hsame := hagree true declaringOnce hessential
  have hok : (ofSourceLines false ['f'] redeclaring).isOk = true := by decide +kernel
  refine ⟨htwice, ⟨d, hrun, hcause, hindex⟩, ?_, honce, (strict_labels_only_refuse _ _).1 honce⟩
  cases hdefault : ofSourceLines false ['f'] redeclaring with
  | error f =>
    rw [hdefault] at hok
    cases hok
  | ok a =>
    cases hstrict : ofSourceLines true ['f'] declaringOnce with
    | error f =>
      rw [hdefault, hstrict] at hsame
      cases hsame
    | ok b =>
      rw [hdefault, hstrict] at hsame
      cases hsame with
      | ok hwords htable => exact ⟨a, b, rfl, rfl, hwords, htable⟩

end Assembly

end HackAssembler
