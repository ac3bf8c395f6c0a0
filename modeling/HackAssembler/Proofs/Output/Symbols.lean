import HackAssembler.Proofs.Files.Writing
import HackAssembler.Proofs.Output.Listing

/-! The symbols read back, from the symbol file and from the listing. Names are without white space and may hold
anything else, so that spaces keep the fields of a line apart. -/
namespace HackAssembler

/-! ### The order of symbols -/

theorem Text.compare_eq_lt_iff {s t : Text} : compare s t = .lt ↔ s < t := by
  induction s generalizing t with
  | nil =>
    cases t with
    | nil => simp
    | cons d t => simp [List.compare_nil_cons]
  | cons c s ih =>
    cases t with
    | nil => simp [List.compare_cons_nil]
    | cons d t =>
      have hchar : compare c d = .lt ↔ c < d := compareOfLessAndEq_eq_lt
      rw [List.compare_cons_cons, List.cons_lt_cons_iff, ← ih, Ordering.then_eq_lt, hchar,
        Std.LawfulEqCmp.compare_eq_iff_eq]

namespace Symbol

/-- A lower address, or the same address and a name that comes first in code-point order. -/
def Precedes (s t : Symbol) : Prop := s.address < t.address ∨ (s.address = t.address ∧ s.name < t.name)

theorem le_iff {s t : Symbol} :
    s.le t = true ↔ s.address < t.address ∨ (s.address = t.address ∧ (compare s.name t.name).isLE = true) := by
  simp [le]

theorem le_trans (s t u : Symbol) (hst : s.le t = true) (htu : t.le u = true) : s.le u = true := by
  rw [le_iff] at *
  rcases hst with hst | ⟨hst, hname⟩
  · rcases htu with htu | ⟨htu, -⟩ <;> exact .inl (by omega)
  · rcases htu with htu | ⟨htu, hname'⟩
    · exact .inl (by omega)
    · exact .inr ⟨hst.trans htu, Std.TransCmp.isLE_trans hname hname'⟩

theorem le_total (s t : Symbol) : (s.le t || t.le s) = true := by
  rw [Bool.or_eq_true, le_iff, le_iff]
  rcases lt_trichotomy s.address t.address with hlt | heq | hgt
  · exact .inl (.inl hlt)
  · cases hname : compare s.name t.name with
    | lt | eq => exact .inl (.inr ⟨heq, rfl⟩)
    | gt =>
      rw [Std.OrientedCmp.gt_iff_lt] at hname
      exact .inr (.inr ⟨heq.symm, by rw [hname]; rfl⟩)
  · exact .inr (.inl hgt)

theorem precedes_of_le {s t : Symbol} (h : s.le t = true) (hname : s.name ≠ t.name) : s.Precedes t := by
  rw [le_iff] at h
  refine h.imp_right fun ⟨haddress, hle⟩ => ⟨haddress, Text.compare_eq_lt_iff.1 ?_⟩
  cases hcompare : compare s.name t.name with
  | lt => rfl
  | eq => exact absurd (Std.LawfulEqCmp.eq_of_compare hcompare) hname
  | gt =>
    rw [hcompare] at hle
    cases hle

end Symbol

namespace SymbolTable

/-- Symbols are listed in strict order, because no name is bound twice. -/
theorem pairwise_sorted (t : SymbolTable) (withPredefined : Bool) :
    (t.sorted withPredefined).Pairwise Symbol.Precedes := by
  have hle := List.pairwise_mergeSort Symbol.le_trans Symbol.le_total (if withPredefined then t.symbols else t.own)
  have hsub : (if withPredefined then t.symbols else t.own).Sublist t.symbols := by
    cases withPredefined
    · exact List.filter_sublist
    · exact List.Sublist.refl _
  have hperm : (t.sorted withPredefined).Perm (if withPredefined then t.symbols else t.own) :=
    List.mergeSort_perm _ _
  have hnames : ((t.sorted withPredefined).map Symbol.name).Nodup :=
    (hperm.map Symbol.name).nodup_iff.2 (t.nodup_names.sublist (hsub.map Symbol.name))
  exact hle.imp₂ (fun s u => Symbol.precedes_of_le) (List.pairwise_map.1 hnames)

end SymbolTable

/-! ### Symbols on a line -/

/-- The kind that a word names. -/
def SymbolKind.ofName? (name : Text) : Option SymbolKind :=
  [SymbolKind.predefined, .label, .variable].find? (·.name = name)

theorem SymbolKind.ofName?_name (kind : SymbolKind) : ofName? kind.name = some kind := by
  cases kind <;> simp [ofName?, name, Text.ofString_eq]

namespace Symbol

/-- What the symbol file says of a symbol. -/
def fields (s : Symbol) : List Text := [s.name, Numeral.decimal s.address, s.kind.name]

def ofFields? : List Text → Option Symbol
  | [name, address, kind] => do
    return ⟨name, ← Numeral.read? 10 address, ← SymbolKind.ofName? kind⟩
  | _ => none

theorem ofFields?_fields (s : Symbol) : ofFields? s.fields = some s := by
  have haddress : Numeral.read? 10 (Numeral.decimal s.address) = some s.address :=
    Numeral.read?_zeroFilled (by decide) (by decide) 0 s.address
  simp only [fields, ofFields?, haddress, SymbolKind.ofName?_name]
  rfl

open Output

/-- The symbol in a row of a listing. Its name ends at the first space, and behind the spaces that fill the column
come an equals sign and one more space. -/
def ofRow? (t : Text) : Option Symbol := do
  let (address, kind) ← readCell (Numeral.read? 10) (((Text.after ' ' t).dropWhile (· = ' ')).drop 2)
  return ⟨Text.before ' ' t, address, ← SymbolKind.ofName? kind⟩

theorem isUnbroken_symbolLine {s : Symbol} (hname : Text.IsUnbroken s.name) : Text.IsUnbroken (symbolLine s) := by
  have hspace : Text.IsUnbroken " " := by
    rw [Text.ofString_eq]
    decide
  simp only [symbolLine, Text.isUnbroken_append]
  exact ⟨⟨⟨⟨hname, hspace⟩, Numeral.isUnbroken_decimal _⟩, hspace⟩,
    s.kind.isPlain_name.isUnbroken⟩

variable {s : Symbol} (h : ' ' ∉ s.name)
include h

theorem splitOn_symbolLine : List.splitOn ' ' (symbolLine s) = s.fields := by
  have hline : symbolLine s = List.intercalate [' '] s.fields := by
    have hspace : Text.ofString " " = [' '] := Text.ofString_eq " "
    simp [symbolLine, fields, hspace]
  have hkind : ' ' ∉ s.kind.name := fun hmem => absurd (s.kind.isPlain_name _ hmem).1 (by decide)
  rw [hline]
  apply List.splitOn_intercalate
  · simp only [fields, List.forall_mem_cons]
    exact ⟨h, space_not_mem_decimal _, hkind, nofun⟩
  · exact List.cons_ne_nil _ _

theorem ofRow?_symbolRow : ofRow? (Listing.symbolRow s) = some s := by
  have hequals : Text.ofString " = " = [' ', '=', ' '] := Text.ofString_eq " = "
  have hspace : ∀ (n : Nat) (rest : Text),
      List.replicate n ' ' ++ ' ' :: rest = ' ' :: (List.replicate n ' ' ++ rest) := by
    intro n rest
    rw [List.append_cons, ← List.replicate_succ', List.replicate_succ, List.cons_append]
  have hrow : Listing.symbolRow s = s.name ++ ' ' :: (List.replicate (20 - s.name.length) ' ' ++
      '=' :: ' ' :: (Listing.numberColumn 5 s.address ++ ' ' :: ' ' :: s.kind.name)) := by
    rw [← hspace]
    simp [Listing.symbolRow, hequals, twoSpaces_eq, List.rightpad]
  have hfill : ∀ c ∈ List.replicate (20 - s.name.length) ' ', decide (c = ' ') = true :=
    fun c hc => decide_eq_true (List.eq_of_mem_replicate hc)
  rw [hrow, ofRow?, Text.after_append_cons h, Text.before_append_cons h, List.dropWhile_append_of_pos hfill,
    List.dropWhile_cons_of_neg (by decide)]
  simp only [List.drop_succ_cons, List.drop_zero, readCell_numberColumn, Option.bind_eq_bind, Option.bind_some,
    SymbolKind.ofName?_name, Option.pure_def]

end Symbol

/-! ### The symbols of a run -/

namespace Output

variable {symbols : List Symbol} (h : ∀ s ∈ symbols, Text.IsUnbroken s.name)
include h

theorem isUnbroken_of_mem_symbolLines :
    ∀ t ∈ ("# Symbol table" :: "# Generated by hackasm" :: symbols.map symbolLine : List Text),
      Text.IsUnbroken t := by
  rw [List.forall_mem_cons, List.forall_mem_cons, List.forall_mem_map]
  rw [Text.ofString_eq, Text.ofString_eq]
  exact ⟨by decide, by decide, fun s hs => Symbol.isUnbroken_symbolLine (h s hs)⟩

theorem lines_symbols :
    Text.lines (Output.symbols symbols) =
      (["# Symbol table", "# Generated by hackasm"] : List Text) ++ symbols.map symbolLine :=
  lines_terminated (isUnbroken_of_mem_symbolLines h)

/-- The file that the symbols are written to is read as the text that was written. -/
theorem readText_symbols {tree : FileTree} {path : Text} {place : Place} (hpath : tree.target path = .ok place) :
    (tree.put place (Utf8.encode (Output.symbols symbols))).readText path = .ok (Output.symbols symbols) := by
  have hreturn : '\r' ∉ Output.symbols symbols := return_not_mem_terminated (isUnbroken_of_mem_symbolLines h)
  rw [Session.readText_of_read (FileTree.read_put hpath _), Text.unifyBreaks_eq_self hreturn]

end Output

namespace Session
open Output

/-- The symbol file has two lines of heading and behind them one line for each symbol of the table, or for each that
the program itself defines, in strict order. Split at its spaces a line gives name, address and kind, so that the file
gives the symbols of the table again, and the rows below the listing give the same symbols in the same order as a file
without the predefined ones. -/
theorem symbols_read_back {s : Session} {file source : Text} {words : List Text}
    (h : (s.assembleSource file source).1 = .ok words) :
    let after := (s.assembleSource file source).2
    ∃ table : SymbolTable, after.table? = some table ∧
      (∀ withPredefined : Bool, ∃ symbols : List Symbol,
        (∀ t, t ∈ symbols ↔ t ∈ table.symbols ∧ (withPredefined = true ∨ t.kind ≠ .predefined)) ∧
        symbols.Pairwise Symbol.Precedes ∧
        (∀ (tree : FileTree) (path : Text) (place : Place), tree.target path = .ok place →
          ∃ (written : FileTree) (text : Text) (found : List Text),
            after.writeSymbols tree path withPredefined = .ok written ∧ written.readText path = .ok text ∧
            Text.lines text = (["# Symbol table", "# Generated by hackasm"] : List Text) ++ found ∧
            found.map (List.splitOn ' ') = symbols.map Symbol.fields ∧
            found.map (fun line => Symbol.ofFields? (List.splitOn ' ' line)) = symbols.map some) ∧
        (withPredefined = false → ∃ found : List Text,
          Text.lines after.listing =
            Listing.heading ++ Listing.rows 0 words (Source.clean source) ++ Listing.symbolHeading ++ found ∧
          found.map Symbol.ofRow? = symbols.map some)) := by
  intro after
  obtain ⟨a, hrun, rfl, hafter⟩ := exists_assembly_of_assembleSource h
  have hblank : ∀ withPredefined, ∀ t ∈ a.table.sorted withPredefined, ∀ c ∈ t.name, Text.isBlank c = false :=
    fun withPredefined t ht => Assembly.not_blank_of_mem_symbols hrun (SymbolTable.mem_sorted_iff.1 ht).1
  have hspace : ∀ withPredefined, ∀ t ∈ a.table.sorted withPredefined, ' ' ∉ t.name :=
    fun withPredefined t ht hmem => absurd (hblank withPredefined t ht _ hmem) (by decide)
  have hsession : after = s.reset.keep a := hafter
  rw [hsession]
  refine ⟨a.table, rfl, fun withPredefined =>
    ⟨a.table.sorted withPredefined, fun t => SymbolTable.mem_sorted_iff, a.table.pairwise_sorted withPredefined,
      ?_, ?_⟩⟩
  · intro tree path place hpath
    have hnames : ∀ t ∈ a.table.sorted withPredefined, Text.IsUnbroken t.name :=
      fun t ht => Text.isUnbroken_of_not_blank (hblank withPredefined t ht)
    refine ⟨_, _, _, ?_, readText_symbols hnames hpath, lines_symbols hnames, ?_, ?_⟩
    · rw [writeSymbols, FileTree.write_eq_ok_iff]
      exact ⟨place, hpath, rfl⟩
    · rw [List.map_map]
      exact List.map_congr_left fun t ht => Symbol.splitOn_symbolLine (hspace withPredefined t ht)
    · rw [List.map_map]
      apply List.map_congr_left
      intro t ht
      rw [Function.comp_apply, Symbol.splitOn_symbolLine (hspace withPredefined t ht), Symbol.ofFields?_fields]
  · rintro rfl
    refine ⟨(a.table.sorted false).map Listing.symbolRow, Assembly.lines_listing hrun s.reset, ?_⟩
    rw [List.map_map]
    exact List.map_congr_left fun t ht => Symbol.ofRow?_symbolRow (hspace false t ht)

/-- A variable with the empty name and a label with an equals sign and a character of no width, at one address. -/
def sharedAddress : Text :=
  List.intercalate ['\n'] (List.replicate 16 (Line.address []) ++ [Line.label ['=', '\u200b']])

theorem symbols_read_back_of_sharedAddress :
    ((start {} none).assembleSource [] sharedAddress).1 =
      .ok (List.replicate 16 (Word.ofBits (BitVec.ofNat Word.width 16))) ∧
    ∃ (written : FileTree) (text : Text) (found : List Text) (symbols : List Symbol),
      ((start {} none).assembleSource [] sharedAddress).2.writeSymbols {} ['s'] false = .ok written ∧
      written.readText ['s'] = .ok text ∧
      Text.lines text = (["# Symbol table", "# Generated by hackasm"] : List Text) ++ found ∧
      found.map (List.splitOn ' ') = symbols.map Symbol.fields ∧ symbols.Pairwise Symbol.Precedes ∧
      ∀ t, t ∈ symbols ↔ t = ⟨['=', '\u200b'], 16, .label⟩ ∨ t = ⟨[], 16, .variable⟩ := by
  have hrun : ((start {} none).assembleSource [] sharedAddress).1 =
      .ok (List.replicate 16 (Word.ofBits (BitVec.ofNat Word.width 16))) := by decide +kernel
  have hbound : ((start {} none).assembleSource [] sharedAddress).2.table?.map SymbolTable.symbols =
      some (Symbol.predefined ++ [⟨['=', '\u200b'], 16, .label⟩, ⟨[], 16, .variable⟩]) := by decide +kernel
  obtain ⟨table, htable, hsymbols⟩ := symbols_read_back hrun
  obtain ⟨symbols, hmem, hstrict, hfile, -⟩ := hsymbols false
  obtain ⟨written, text, found, hwrite, hread, hlines, hfields, -⟩ := hfile {} ['s'] [['s']] rfl
  refine ⟨hrun, written, text, found, symbols, hwrite, hread, hlines, hfields, hstrict, fun t => ?_⟩
  rw [htable, Option.map_some] at hbound
  rw [hmem, Option.some.inj hbound]
  constructor
  · rintro ⟨ht, hown | hown⟩
    · cases hown
    · rcases List.mem_append.1 ht with ht | ht
      · exact absurd (Symbol.kind_of_mem_predefined ht) hown
      · simpa using ht
  · rintro (rfl | rfl)
    · exact ⟨List.mem_append_right _ (by simp), .inr (by decide)⟩
    · exact ⟨List.mem_append_right _ (by simp), .inr (by decide)⟩

end Session

end HackAssembler
