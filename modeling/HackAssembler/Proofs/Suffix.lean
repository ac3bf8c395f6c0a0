import Mathlib.Data.List.DropRight
import HackAssembler.CommandLine.Run
import HackAssembler.Proofs.Instruction.Splitting

/-! The suffix of the default output. Whatever value the environment gives it is refused, or it becomes a suffix that
every file name can take, and the path that takes it differs from the input in nothing but the extension of its
name. -/
namespace HackAssembler

/-! ### White space at the ends -/

namespace Text

/-- The text does not end in white space. -/
def IsTrimmedRight (t : Text) : Prop := ∀ c ∈ t.getLast?, isBlank c = false

theorem isTrimmedRight_trim (t : Text) : IsTrimmedRight (trim t) := by
  intro c hc
  have hkept := List.head?_dropWhile_not isBlank (trimLeft t).reverse
  rw [trim, trimRight, List.getLast?_reverse] at hc
  rw [hc] at hkept
  exact hkept

theorem trim_eq_self {t : Text} (hfirst : ∀ c ∈ t.head?, isBlank c = false) (hlast : IsTrimmedRight t) :
    trim t = t := by
  have hleft : trimLeft t = t := by
    cases t with
    | nil => rfl
    | cons c t => exact List.dropWhile_cons_of_neg (by simp [hfirst c rfl])
  have hright : t.rdropWhile isBlank = t := by
    rw [List.rdropWhile_eq_self_iff]
    intro hne
    simp [hlast _ (List.getLast?_eq_some_getLast hne)]
  rw [trim, hleft]
  exact hright

end Text

/-! ### Settings -/

namespace Settings

/-- A suffix as the settings hold it: a dot and something behind it, within one file name and with no white space at
its end. -/
structure IsNormalSuffix (suffix : Text) : Prop where
  dot : suffix.head? = some '.'
  length : 2 ≤ suffix.length
  slash : '/' ∉ suffix
  backslash : '\\' ∉ suffix
  last : Text.IsTrimmedRight suffix

theorem head?_normalSuffix (value : Text) : (normalSuffix value).head? = some '.' := by
  unfold normalSuffix
  dsimp only
  split
  · next hdot => exact hdot
  · rfl

theorem isTrimmedRight_normalSuffix (value : Text) : Text.IsTrimmedRight (normalSuffix value) := by
  have htrim := Text.isTrimmedRight_trim value
  unfold normalSuffix
  dsimp only
  split
  · exact htrim
  · intro c hc
    rw [List.getLast?_cons, Option.mem_some_iff] at hc
    cases hlast : (Text.trim value).getLast? with
    | none =>
      rw [hlast] at hc
      subst hc
      decide
    | some d =>
      rw [hlast] at hc
      subst hc
      exact htrim d hlast

theorem mem_normalSuffix_iff {c : Char} (hc : c ≠ '.') (value : Text) :
    c ∈ normalSuffix value ↔ c ∈ Text.trim value := by
  unfold normalSuffix
  dsimp only
  split
  · rfl
  · simp [hc]

theorem normalSuffix_eq_dot_iff (value : Text) :
    normalSuffix value = ['.'] ↔ Text.trim value = [] ∨ Text.trim value = ['.'] := by
  unfold normalSuffix
  dsimp only
  split
  · next hdot =>
    have hne : Text.trim value ≠ [] := fun hnil => by
      rw [hnil] at hdot
      cases hdot
    simp [hne]
  · next hdot =>
    have hne : Text.trim value ≠ ['.'] := fun heq => hdot (by rw [heq]; rfl)
    simp [hne]

/-- A suffix that is normal stays as it is. -/
theorem normalSuffix_eq_self {suffix : Text} (hdot : suffix.head? = some '.')
    (hlast : Text.IsTrimmedRight suffix) : normalSuffix suffix = suffix := by
  have htrim : Text.trim suffix = suffix := by
    refine Text.trim_eq_self (fun c hc => ?_) hlast
    rw [hdot, Option.mem_some_iff] at hc
    subst hc
    decide
  simp only [normalSuffix, htrim, if_pos hdot]

/-- A value of the suffix variable that no suffix can be made of. -/
def IsUnusable (value : Text) : Prop :=
  Text.trim value = [] ∨ Text.trim value = ['.'] ∨ '/' ∈ Text.trim value ∨ '\\' ∈ Text.trim value

theorem exists_fault_of_isUnusable {value : Text} (h : IsUnusable value) :
    ∃ f, checkSuffix (normalSuffix value) = .error f := by
  rw [IsUnusable, ← or_assoc, ← normalSuffix_eq_dot_iff, ← mem_normalSuffix_iff (c := '/') (by decide),
    ← mem_normalSuffix_iff (c := '\\') (by decide)] at h
  unfold checkSuffix
  split
  · exact ⟨_, rfl⟩
  · next hdot =>
    have hseparator : ((normalSuffix value).contains '/' || (normalSuffix value).contains '\\') = true := by
      simpa [hdot] using h
    rw [if_pos hseparator]
    exact ⟨_, rfl⟩

theorem checkSuffix_of_isNormalSuffix {suffix : Text} (h : IsNormalSuffix suffix) :
    checkSuffix suffix = .ok suffix := by
  have hdot : suffix ≠ ['.'] := by
    rintro rfl
    exact absurd h.length (by decide)
  have hseparator : ¬(suffix.contains '/' || suffix.contains '\\') = true := by
    simp [h.slash, h.backslash]
  rw [checkSuffix, if_neg hdot, if_neg hseparator]

theorem isNormalSuffix_normalSuffix {value : Text} (h : ¬IsUnusable value) :
    IsNormalSuffix (normalSuffix value) := by
  rw [IsUnusable, ← or_assoc, ← normalSuffix_eq_dot_iff, ← mem_normalSuffix_iff (c := '/') (by decide),
    ← mem_normalSuffix_iff (c := '\\') (by decide), not_or, not_or] at h
  obtain ⟨hdot, hslash, hbackslash⟩ := h
  refine ⟨head?_normalSuffix value, ?_, hslash, hbackslash, isTrimmedRight_normalSuffix value⟩
  obtain ⟨rest, hrest⟩ := List.head?_eq_some_iff.1 (head?_normalSuffix value)
  rw [hrest] at hdot ⊢
  cases rest with
  | nil => exact absurd rfl hdot
  | cons c rest => exact Nat.le_add_left 2 rest.length

/-- The suffix that the environment asks for. -/
def suffixOf (environment : Environment) : Except SettingFault Text :=
  match isSet environment.outputSuffix with
  | none => .ok ".hack"
  | some value => checkSuffix (normalSuffix value)

/-- The mode of labels that the environment asks for. -/
def strictLabelsOf (environment : Environment) : Bool :=
  match isSet environment.strictLabels with
  | none => false
  | some value => isAffirmative value

/-- The two settings do not depend on each other. -/
theorem ofEnvironment_eq (environment : Environment) :
    ofEnvironment environment =
      (suffixOf environment).map fun suffix => ⟨strictLabelsOf environment, suffix⟩ := by
  unfold ofEnvironment suffixOf
  cases isSet environment.outputSuffix with
  | none => rfl
  | some value =>
    simp only
    cases checkSuffix (normalSuffix value) <;> rfl

theorem suffixOf_cases (environment : Environment) :
    (∃ value f, environment.outputSuffix = some value ∧ value ≠ [] ∧ IsUnusable value ∧
      suffixOf environment = .error f) ∨
    ((∀ value, environment.outputSuffix = some value → value ≠ [] → ¬IsUnusable value) ∧
      ∃ suffix, suffixOf environment = .ok suffix ∧ IsNormalSuffix suffix) := by
  have hdefault : IsNormalSuffix (".hack" : Text) := by
    have hlast : ".hack".toList.getLast? = some 'k' := rfl
    rw [Text.ofString_eq]
    refine ⟨rfl, by decide, by decide, by decide, fun c hc => ?_⟩
    rw [← Option.some.inj (hlast.symm.trans hc)]
    decide
  unfold suffixOf
  cases hset : environment.outputSuffix with
  | none => exact .inr ⟨nofun, _, rfl, hdefault⟩
  | some value =>
    by_cases hempty : value = []
    · subst hempty
      exact .inr ⟨fun value hvalue hne => absurd (Option.some.inj hvalue).symm hne, _, rfl, hdefault⟩
    · have hvalue : isSet (some value) = some value := by simp [isSet, hempty]
      rw [hvalue]
      by_cases hunusable : IsUnusable value
      · obtain ⟨f, hf⟩ := exists_fault_of_isUnusable hunusable
        exact .inl ⟨value, f, rfl, hempty, hunusable, hf⟩
      · have hnormal := isNormalSuffix_normalSuffix hunusable
        refine .inr ⟨fun other hother _ => ?_, _, checkSuffix_of_isNormalSuffix hnormal, hnormal⟩
        rwa [← Option.some.inj hother]

/-- A suffix that is normal is taken over from the environment as it stands. -/
theorem suffixOf_of_isNormalSuffix {suffix : Text} (h : IsNormalSuffix suffix) (environment : Environment) :
    suffixOf { environment with outputSuffix := some suffix } = .ok suffix := by
  have hset : isSet (some suffix) = some suffix := by
    have hne : suffix ≠ [] := fun hnil => by
      rw [hnil] at h
      exact absurd h.length (by decide)
    simp [isSet, hne]
  simp only [suffixOf, hset]
  rw [normalSuffix_eq_self h.dot h.last]
  exact checkSuffix_of_isNormalSuffix h

end Settings

/-! ### File names -/

namespace Path

/-- The name ends in an extension: a dot that it does not begin with, and behind it something without a dot. -/
def Extended (name stem extension : Text) : Prop :=
  name = stem ++ '.' :: extension ∧ stem ≠ [] ∧ extension ≠ [] ∧ '.' ∉ extension

theorem splitExtension_append (stem : Text) {extension : Text} (h : '.' ∉ extension) :
    splitExtension (stem ++ '.' :: extension) =
      if stem.isEmpty || extension.isEmpty then (stem ++ '.' :: extension, []) else (stem, '.' :: extension) := by
  have hreverse : (stem ++ '.' :: extension).reverse = extension.reverse ++ '.' :: stem.reverse := by simp
  have hlast : ((stem ++ '.' :: extension).reverse.takeWhile (· ≠ '.')).reverse = extension := by
    rw [hreverse, List.takeWhile_ne_append_cons (by simpa using h), List.reverse_reverse]
  have hlength : (stem ++ '.' :: extension).length - extension.length - 1 = stem.length := by
    rw [List.length_append, List.length_cons]
    omega
  rw [splitExtension, hlast, hlength, List.take_left]

theorem splitExtension_of_not_mem {name : Text} (h : '.' ∉ name) : splitExtension name = (name, []) := by
  have hlast : (name.reverse.takeWhile (· ≠ '.')).reverse = name := by
    rw [List.takeWhile_ne_eq_self (by simpa using h), List.reverse_reverse]
  rw [splitExtension, hlast, Nat.sub_self, Nat.zero_sub, List.take_zero]
  rfl

/-- A name with a dot has a last one. -/
theorem exists_last_dot {name : Text} (h : '.' ∈ name) :
    ∃ stem extension, name = stem ++ '.' :: extension ∧ '.' ∉ extension := by
  obtain ⟨front, back, hreverse, hfront⟩ := List.eq_append_cons_of_mem (List.mem_reverse.2 h)
  refine ⟨back.reverse, front.reverse, ?_, by simpa using hfront⟩
  rw [← List.reverse_reverse name, hreverse]
  simp

theorem splitExtension_of_extended {name stem extension : Text} (h : Extended name stem extension) :
    splitExtension name = (stem, '.' :: extension) := by
  obtain ⟨rfl, hstem, hextension, hdot⟩ := h
  rw [splitExtension_append stem hdot, if_neg (by simp [hstem, hextension])]

/-- A name is cut in front of its extension, or it has none and stays whole. -/
theorem splitExtension_cases (name : Text) :
    (∃ stem extension, Extended name stem extension ∧ splitExtension name = (stem, '.' :: extension)) ∨
      (∀ stem extension, ¬Extended name stem extension) ∧ splitExtension name = (name, []) := by
  by_cases hextended : ∃ stem extension, Extended name stem extension
  · obtain ⟨stem, extension, h⟩ := hextended
    exact .inl ⟨stem, extension, h, splitExtension_of_extended h⟩
  · simp only [not_exists] at hextended
    refine .inr ⟨hextended, ?_⟩
    by_cases hdot : '.' ∈ name
    · obtain ⟨stem, extension, rfl, hlast⟩ := exists_last_dot hdot
      have hempty : stem = [] ∨ extension = [] := by
        by_contra hboth
        rw [not_or] at hboth
        exact hextended stem extension ⟨rfl, hboth.1, hboth.2, hlast⟩
      rw [splitExtension_append stem hlast, if_pos (by simpa using hempty)]
    · exact splitExtension_of_not_mem hdot

/-! ### Paths -/

theorem intercalate_concat (c : Char) (front : List Text) (last : Text) :
    List.intercalate [c] (front ++ [last]) = front.flatMap (· ++ [c]) ++ last := by
  induction front with
  | nil => simp
  | cons first rest ih =>
    cases rest with
    | nil => simp [List.intercalate_cons_cons]
    | cons second rest =>
      rw [List.cons_append, List.cons_append, List.intercalate_cons_cons, ← List.cons_append, ih]
      simp

/-- The text in front of the name of a path. -/
def directory (p : Path) : Text := p.root ++ p.parts.dropLast.flatMap (· ++ [separator])

theorem text_eq_directory_append {p : Path} (h : p.name ≠ []) : p.text = p.directory ++ p.name := by
  obtain ⟨root, parts⟩ := p
  rcases List.eq_nil_or_concat parts with rfl | ⟨front, last, rfl⟩
  · exact absurd rfl h
  · simp [text, directory, name, intercalate_concat]

/-- The directory is empty or ends where the name begins. -/
theorem eq_separator_of_mem_getLast?_directory {t : Text} {c : Char}
    (h : c ∈ (ofText t).directory.getLast?) : c = separator := by
  unfold directory at h
  rcases List.eq_nil_or_concat (ofText t).parts.dropLast with hnone | ⟨front, last, hparts⟩
  · rw [hnone, List.flatMap_nil, List.append_nil] at h
    exact eq_separator_of_mem_root (List.mem_of_getLast? h)
  · rw [hparts, List.concat_eq_append, List.flatMap_append, List.flatMap_singleton, ← List.append_assoc,
      ← List.append_assoc, List.getLast?_concat] at h
    exact (Option.some.inj h).symm

theorem separator_not_mem_name_ofText (t : Text) : separator ∉ (ofText t).name := by
  intro h
  unfold name at h
  cases hlast : (ofText t).parts.getLast? with
  | none =>
    rw [hlast] at h
    cases h
  | some last =>
    rw [hlast] at h
    have hmem : last ∈ segments t := (List.mem_filter.1 (List.mem_of_getLast? hlast)).1
    exact separator_not_mem_of_mem_segments hmem h

/-- A name takes a normal suffix in the place of its extension. -/
theorem withSuffix_of_isNormalSuffix {p : Path} (hname : p.name ≠ []) {suffix : Text}
    (h : Settings.IsNormalSuffix suffix) :
    p.withSuffix suffix = .ok { p with parts := p.parts.dropLast ++ [(splitExtension p.name).1 ++ suffix] } := by
  have hdot : suffix ≠ ['.'] := by
    rintro rfl
    exact absurd h.length (by decide)
  have hsuffix : isSuffix suffix = true := by
    simp [isSuffix, h.slash, h.dot, hdot]
  rw [withSuffix, hsuffix, List.isEmpty_eq_false_iff.2 hname]
  rfl

end Path

/-! ### The default output -/

namespace CommandLine
open Settings

/-- The default output of a request stands beside the input, under a name that ends in the suffix. -/
theorem Request.wordsPath_of_isNormalSuffix {r : Request} {settings : Settings} (hfile : r.toStdout = false)
    (hdefault : r.output = none) (hname : (Path.ofText r.input).name ≠ [])
    (h : IsNormalSuffix settings.outputSuffix) :
    r.wordsPath settings = .ok (some ((Path.ofText r.input).directory ++
      ((Path.splitExtension (Path.ofText r.input).name).1 ++ settings.outputSuffix))) := by
  have hsuffix := Path.withSuffix_of_isNormalSuffix hname h
  have hnew : (Path.splitExtension (Path.ofText r.input).name).1 ++ settings.outputSuffix ≠ [] := by
    apply List.append_ne_nil_of_right_ne_nil
    intro hnil
    rw [hnil] at h
    exact absurd h.length (by decide)
  simp only [wordsPath, hfile, hdefault, hsuffix, Bool.false_eq_true, if_false]
  rw [Path.text_eq_directory_append (by simpa [Path.name] using hnew)]
  simp [Path.directory, Path.name]

/-- The environment is refused exactly for a value of its suffix variable that is set, not empty, and of white space
alone, a single dot, or no part of one file name. Any other environment gives a suffix that begins with a dot, has
something behind it, and ends in no white space; put back into the variable it gives the same settings again. And with
such a suffix every input that has a name has a default output, in the directory of the input, under the name of the
input with the suffix in place of its extension or, if it has none, behind it. -/
theorem suffix_is_refused_or_fits (environment : Environment) :
    ((∃ f, Settings.ofEnvironment environment = .error f) ↔
      ∃ value, environment.outputSuffix = some value ∧ value ≠ [] ∧
        (Text.trim value = [] ∨ Text.trim value = ['.'] ∨ '/' ∈ Text.trim value ∨ '\\' ∈ Text.trim value)) ∧
    ∀ settings, Settings.ofEnvironment environment = .ok settings →
      settings.outputSuffix.head? = some '.' ∧ 2 ≤ settings.outputSuffix.length ∧
      '/' ∉ settings.outputSuffix ∧ '\\' ∉ settings.outputSuffix ∧
      (∀ c ∈ settings.outputSuffix.getLast?, Text.isBlank c = false) ∧
      Settings.ofEnvironment { environment with outputSuffix := some settings.outputSuffix } = .ok settings ∧
      ∀ r : Request, r.toStdout = false → r.output = none → (Path.ofText r.input).name ≠ [] →
        ∃ directory name newName : Text,
          Request.plain r.input = directory ++ name ∧ name = (Path.ofText r.input).name ∧
          (∀ c ∈ directory.getLast?, c = '/') ∧ '/' ∉ name ∧
          r.wordsPath settings = .ok (some (directory ++ newName)) ∧
          ((∃ stem extension, name = stem ++ '.' :: extension ∧ stem ≠ [] ∧ extension ≠ [] ∧ '.' ∉ extension ∧
              newName = stem ++ settings.outputSuffix) ∨
            (¬∃ stem extension, name = stem ++ '.' :: extension ∧ stem ≠ [] ∧ extension ≠ [] ∧ '.' ∉ extension) ∧
              newName = name ++ settings.outputSuffix) := by
  rw [ofEnvironment_eq]
  rcases suffixOf_cases environment with
    ⟨value, f, hvalue, hne, hunusable, hrefused⟩ | ⟨husable, suffix, hsuffix, hnormal⟩
  · rw [hrefused]
    exact ⟨⟨fun _ => ⟨value, hvalue, hne, hunusable⟩, fun _ => ⟨f, rfl⟩⟩, nofun⟩
  · rw [hsuffix]
    constructor
    · constructor
      · rintro ⟨f, hf⟩
        cases hf
      · rintro ⟨value, hvalue, hne, hunusable⟩
        exact absurd hunusable (husable value hvalue hne)
    · intro settings hsettings
      obtain rfl := Except.ok.inj hsettings
      refine ⟨hnormal.dot, hnormal.length, hnormal.slash, hnormal.backslash, hnormal.last, ?_, ?_⟩
      · rw [ofEnvironment_eq, suffixOf_of_isNormalSuffix hnormal]
        rfl
      · intro r hfile hdefault hname
        refine ⟨_, _, _, Path.text_eq_directory_append hname, rfl,
          fun c => Path.eq_separator_of_mem_getLast?_directory, Path.separator_not_mem_name_ofText r.input,
          Request.wordsPath_of_isNormalSuffix hfile hdefault hname hnormal, ?_⟩
        rcases Path.splitExtension_cases (Path.ofText r.input).name with
          ⟨stem, extension, ⟨hcut, hstem, hextension, hdot⟩, hsplit⟩ | ⟨hnone, hsplit⟩
        · rw [hsplit]
          exact .inl ⟨stem, extension, hcut, hstem, hextension, hdot, rfl⟩
        · rw [hsplit]
          refine .inr ⟨?_, rfl⟩
          rintro ⟨stem, extension, hextended⟩
          exact hnone stem extension hextended

/-- A suffix with white space around it, without its dot. -/
def paddedSuffix : Environment where
  outputSuffix := some [' ', 'b', '.', 'x', '\t']

/-- An input whose name begins with its only dot. -/
def hiddenInput : Request where
  input := ['d', '/', '/', '.', 'a', 's', 'm']

theorem suffix_is_refused_or_fits_of_hiddenInput :
    (∃ f, Settings.ofEnvironment { outputSuffix := some ['\u3000', '.'] } = .error f) ∧
    Settings.ofEnvironment paddedSuffix = .ok ⟨false, ['.', 'b', '.', 'x']⟩ ∧
    Settings.ofEnvironment { outputSuffix := some ['.', 'b', '.', 'x'] } = .ok ⟨false, ['.', 'b', '.', 'x']⟩ ∧
    hiddenInput.wordsPath ⟨false, ['.', 'b', '.', 'x']⟩ =
      .ok (some ['d', '/', '.', 'a', 's', 'm', '.', 'b', '.', 'x']) := by
  have hrefused := (suffix_is_refused_or_fits { outputSuffix := some ['\u3000', '.'] }).1.2
    ⟨_, rfl, by decide, .inr (.inl (by decide))⟩
  have hsettings : Settings.ofEnvironment paddedSuffix = .ok ⟨false, ['.', 'b', '.', 'x']⟩ := by decide +kernel
  obtain ⟨-, -, -, -, -, hagain, hdefault⟩ := (suffix_is_refused_or_fits paddedSuffix).2 _ hsettings
  obtain ⟨directory, name, newName, hplain, hname, -, -, hpath, hnew⟩ :=
    hdefault hiddenInput rfl rfl (by decide)
  have hhidden : name = ['.', 'a', 's', 'm'] := hname.trans (by decide)
  have hwhere : Request.plain hiddenInput.input = ['d', '/'] ++ ['.', 'a', 's', 'm'] := by decide
  obtain rfl : directory = ['d', '/'] := by
    rw [hwhere, hhidden] at hplain
    exact (List.append_cancel_right hplain).symm
  -- The only dot of the name stands first, so that it opens no extension.
  have hnone : ∀ stem extension : Text, ['.', 'a', 's', 'm'] = stem ++ '.' :: extension → stem = [] := by
    intro stem extension h
    cases stem with
    | nil => rfl
    | cons c stem =>
      have hdot : '.' ∈ ['a', 's', 'm'] := by
        rw [(List.cons.inj h).2]
        simp
      exact absurd hdot (by decide)
  rcases hnew with ⟨stem, extension, hcut, hstem, -⟩ | ⟨-, hnew⟩
  · exact absurd (hnone stem extension (hhidden ▸ hcut)) hstem
  · rw [hhidden] at hnew
    rw [hnew] at hpath
    exact ⟨hrefused, hsettings, hagain, hpath⟩

end CommandLine

end HackAssembler
