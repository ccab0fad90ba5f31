import Deliberation.Path
import Mathlib.Data.List.Basic

/-!
# The canonical form of paths

Reading takes the separators off both ends of a text, however many there are, and leaves what
is between them as it is. So the text of a path begins and ends with other characters, it is
read as itself, and two texts are read as one path just if they agree between the separators at
their ends. Separators inside part a text into segments that can be joined again.
-/

namespace Deliberation

set_option autoImplicit false

namespace Path

section Drop

theorem drop_separators_of_head {characters : List Char}
    (other : characters.head? ≠ some separator) : dropSeparators characters = characters := by
  cases characters with
  | nil => rfl
  | cons first rest =>
      have notSeparator : (first == separator) = false := by simpa using other
      rw [dropSeparators, List.dropWhile_cons, notSeparator]
      rfl

theorem head_drop_separators (characters : List Char) :
    (dropSeparators characters).head? ≠ some separator := by
  intro isSeparator
  have passed := List.head?_dropWhile_not (· == separator) characters
  rw [← dropSeparators, isSeparator] at passed
  exact absurd passed (by decide)

theorem eq_replicate_append_drop (characters : List Char) :
    ∃ count, characters = List.replicate count separator ++ dropSeparators characters := by
  have dropped : characters.takeWhile (· == separator) =
      List.replicate (characters.takeWhile (· == separator)).length separator := by
    apply List.eq_replicate_of_mem
    intro character member
    exact beq_iff_eq.mp (List.all_eq_true.mp List.all_takeWhile character member)
  refine ⟨(characters.takeWhile (· == separator)).length, ?_⟩
  rw [← dropped]
  exact List.takeWhile_append_dropWhile.symm

theorem drop_replicate_append (count : Nat) (characters : List Char) :
    dropSeparators (List.replicate count separator ++ characters) = dropSeparators characters := by
  apply List.dropWhile_append_of_pos
  intro character member
  exact beq_iff_eq.mpr (List.eq_of_mem_replicate member)

end Drop

section Trim

/-- Begins and ends with other characters than separators, if it has characters at all. -/
structure Bare (characters : List Char) : Prop where
  head : characters.head? ≠ some separator
  last : characters.getLast? ≠ some separator

/-- A text between so many separators before and after it. -/
def padding (before : Nat) (core : List Char) (after : Nat) : List Char :=
  List.replicate before separator ++ core ++ List.replicate after separator

theorem padding_padding (before outer : Nat) (core : List Char) (inner after : Nat) :
    padding before (padding outer core inner) after =
      padding (before + outer) core (inner + after) := by
  simp only [padding, List.append_assoc, List.replicate_append_replicate]
  rw [← List.append_assoc, List.replicate_append_replicate]

theorem trim_padding {core : List Char} (bare : Bare core) (before after : Nat) :
    trim (padding before core after) = core := by
  rw [trim, padding, List.append_assoc, drop_replicate_append]
  cases core with
  | nil =>
      have nothing := drop_replicate_append after []
      rw [List.append_nil] at nothing
      rw [List.nil_append, nothing]
      rfl
  | cons first rest =>
      have front : dropSeparators (first :: rest ++ List.replicate after separator) =
          first :: rest ++ List.replicate after separator :=
        drop_separators_of_head bare.head
      have back : (first :: rest).reverse.head? ≠ some separator := by
        rw [List.head?_reverse]
        exact bare.last
      rw [front, List.reverse_append, List.reverse_replicate, drop_replicate_append,
        drop_separators_of_head back, List.reverse_reverse]

/-- First the separators in front are dropped, then, seen from behind, those at the end. -/
theorem trim_parts (source : List Char) :
    Bare (trim source) ∧ ∃ before after, source = padding before (trim source) after := by
  obtain ⟨before, front⟩ := eq_replicate_append_drop source
  obtain ⟨after, back⟩ := eq_replicate_append_drop (dropSeparators source).reverse
  have rejoined : dropSeparators source = trim source ++ List.replicate after separator := by
    rw [← List.reverse_reverse (dropSeparators source), back, List.reverse_append,
      List.reverse_replicate]
    rfl
  refine ⟨⟨?_, ?_⟩, before, after, ?_⟩
  · intro isSeparator
    apply head_drop_separators source
    rw [rejoined, List.head?_append, isSeparator]
    rfl
  · rw [trim, List.getLast?_reverse]
    exact head_drop_separators _
  · rw [padding, List.append_assoc, ← rejoined]
    exact front

theorem trim_of_padding (before : Nat) (core : List Char) (after : Nat) :
    trim (padding before core after) = trim core := by
  obtain ⟨bare, outer, inner, parts⟩ := trim_parts core
  rw [parts, padding_padding, trim_padding bare, trim_padding bare]

theorem trim_eq_nil_iff (source : List Char) :
    trim source = [] ↔ ∀ character ∈ source, character = separator := by
  constructor
  · intro nothing character member
    obtain ⟨-, before, after, parts⟩ := trim_parts source
    rw [nothing, padding, List.append_nil, List.replicate_append_replicate] at parts
    rw [parts] at member
    exact List.eq_of_mem_replicate member
  · intro separators
    have parts : source = padding source.length [] 0 := by
      rw [padding, List.append_nil, List.replicate_zero, List.append_nil]
      exact List.eq_replicate_of_mem separators
    rw [parts, trim_of_padding]
    rfl

end Trim

section Segments

theorem segments_ne_nil (characters : List Char) : segments characters ≠ [] := by
  fun_cases segments characters <;> simp_all

theorem segments_separator (rest : List Char) :
    segments (separator :: rest) = [] :: segments rest :=
  if_pos rfl

/-- Another character than the separator lengthens the first segment behind it. -/
theorem segments_other {character : Char} (other : character ≠ separator) (rest : List Char) :
    ∃ segment others, segments rest = segment :: others ∧
      segments (character :: rest) = (character :: segment) :: others := by
  obtain ⟨segment, others, parts⟩ := List.exists_cons_of_ne_nil (segments_ne_nil rest)
  refine ⟨segment, others, parts, ?_⟩
  rw [segments, if_neg other, parts]

theorem segments_eq_split_on (characters : List Char) :
    segments characters = characters.splitOn separator := by
  rw [List.splitOn_eq_splitOnP]
  induction characters with
  | nil => rfl
  | cons character rest ih =>
      rw [List.splitOnP_cons_eq_if_modifyHead, ← ih]
      by_cases isSeparator : character = separator
      · rw [isSeparator, segments_separator, if_pos (beq_self_eq_true _)]
      · obtain ⟨segment, others, parts, lengthened⟩ := segments_other isSeparator rest
        rw [lengthened, if_neg (mt beq_iff_eq.mp isSeparator), parts]
        rfl

theorem separator_not_mem_segment (characters : List Char) :
    ∀ segment ∈ segments characters, separator ∉ segment := by
  induction characters with
  | nil => simp [segments]
  | cons character rest ih =>
      by_cases isSeparator : character = separator
      · rw [isSeparator, segments_separator]
        simpa using ih
      · obtain ⟨segment, others, parts, lengthened⟩ := segments_other isSeparator rest
        rw [parts, List.forall_mem_cons] at ih
        rw [lengthened, List.forall_mem_cons, List.mem_cons, not_or]
        exact ⟨⟨Ne.symm isSeparator, ih.1⟩, ih.2⟩

theorem segments_length (characters : List Char) :
    (segments characters).length = characters.count separator + 1 := by
  induction characters with
  | nil => rfl
  | cons character rest ih =>
      by_cases isSeparator : character = separator
      · rw [isSeparator, segments_separator, List.length_cons, ih, List.count_cons_self]
      · obtain ⟨segment, others, parts, lengthened⟩ := segments_other isSeparator rest
        rw [parts, List.length_cons] at ih
        rw [lengthened, List.length_cons, ih, List.count_cons_of_ne isSeparator]

theorem first_segment_nil {characters : List Char} (empty : (segments characters).head? = some []) :
    characters = [] ∨ characters.head? = some separator := by
  cases characters with
  | nil => exact .inl rfl
  | cons character rest =>
      by_cases isSeparator : character = separator
      · exact .inr (congrArg some isSeparator)
      · obtain ⟨segment, others, _, lengthened⟩ := segments_other isSeparator rest
        rw [lengthened] at empty
        exact absurd (Option.some.inj empty) (List.cons_ne_nil character segment)

/-- The last segment stays the last one until it is itself lengthened. -/
theorem last_segment_nil {characters : List Char}
    (empty : (segments characters).getLast? = some []) :
    characters = [] ∨ characters.getLast? = some separator := by
  induction characters with
  | nil => exact .inl rfl
  | cons character rest ih =>
      right
      rw [List.getLast?_cons]
      by_cases isSeparator : character = separator
      · obtain ⟨segment, others, parts⟩ := List.exists_cons_of_ne_nil (segments_ne_nil rest)
        rw [isSeparator, segments_separator, parts, List.getLast?_cons_cons, ← parts] at empty
        rcases ih empty with rfl | last
        · exact congrArg some isSeparator
        · rw [last]
          rfl
      · obtain ⟨segment, others, parts, lengthened⟩ := segments_other isSeparator rest
        rw [lengthened] at empty
        cases others with
        | nil => exact absurd (Option.some.inj empty) (List.cons_ne_nil character segment)
        | cons next more =>
            rw [List.getLast?_cons_cons, ← @List.getLast?_cons_cons _ segment, ← parts] at empty
            -- More than one segment means that something is left of the characters.
            rcases ih empty with rfl | last
            · exact absurd parts (by simp [segments])
            · rw [last]
              rfl

end Segments

section Reading

def padded (before : Nat) (core : String) (after : Nat) : String :=
  String.ofList (padding before core.toList after)

/-- The two texts differ in the separators at their ends alone. -/
def AlikeInside (left right : String) : Prop :=
  ∃ core before after otherBefore otherAfter,
    left = padded before core after ∧ right = padded otherBefore core otherAfter

theorem parse_error_iff (source : String) :
    parse source = .error .empty ↔ trim source.toList = [] := by
  rw [parse]
  cases trim source.toList <;> simp

theorem parse_ok_iff (source : String) (path : Path) :
    parse source = .ok path ↔
      trim source.toList ≠ [] ∧ path.text.toList = trim source.toList := by
  rw [parse]
  cases trim source.toList with
  | nil => simp
  | cons first rest =>
      rw [Except.ok.injEq, mk.injEq, and_iff_right (List.cons_ne_nil first rest),
        ← String.toList_inj, String.toList_ofList]
      exact eq_comm

theorem alike_inside_iff (left right : String) :
    AlikeInside left right ↔ trim left.toList = trim right.toList := by
  constructor
  · rintro ⟨core, before, after, otherBefore, otherAfter, rfl, rfl⟩
    rw [padded, padded, String.toList_ofList, String.toList_ofList, trim_of_padding,
      trim_of_padding]
  · intro alike
    obtain ⟨-, before, after, parts⟩ := trim_parts left.toList
    obtain ⟨-, otherBefore, otherAfter, otherParts⟩ := trim_parts right.toList
    rw [← alike] at otherParts
    refine ⟨String.ofList (trim left.toList), before, after, otherBefore, otherAfter, ?_, ?_⟩
    · rw [padded, String.toList_ofList, ← parts, String.ofList_toList]
    · rw [padded, String.toList_ofList, ← otherParts, String.ofList_toList]

theorem parts_to_list (path : Path) :
    path.parts.map String.toList = segments path.text.toList := by
  rw [parts, List.map_map]
  exact List.map_id'' (fun _ => String.toList_ofList) _

theorem parts_joined (path : Path) :
    (String.singleton separator).intercalate path.parts = path.text := by
  rw [← String.toList_inj, String.toList_intercalate, String.toList_singleton, parts_to_list,
    segments_eq_split_on, List.intercalate_splitOn]

section Ends

variable {path : Path} (bare : Bare path.text.toList) (present : path.text.toList ≠ [])

include bare present

theorem first_part : ∃ part ∈ path.parts.head?, part ≠ "" := by
  obtain ⟨segment, others, segmented⟩ :=
    List.exists_cons_of_ne_nil (segments_ne_nil path.text.toList)
  refine ⟨String.ofList segment, ?_, ?_⟩
  · rw [parts, segmented]
    rfl
  · intro empty
    obtain rfl : segment = [] := String.ofList_eq_empty_iff.mp empty
    rcases first_segment_nil (by rw [segmented]; rfl) with nothing | isSeparator
    · exact present nothing
    · exact bare.head isSeparator

theorem last_part : ∃ part ∈ path.parts.getLast?, part ≠ "" := by
  have final := List.getLast?_eq_some_getLast (segments_ne_nil path.text.toList)
  refine ⟨String.ofList ((segments path.text.toList).getLast (segments_ne_nil _)), ?_, ?_⟩
  · rw [parts, List.getLast?_map, final]
    rfl
  · intro empty
    rw [String.ofList_eq_empty_iff.mp empty] at final
    rcases last_segment_nil final with nothing | isSeparator
    · exact present nothing
    · exact bare.last isSeparator

end Ends

/-- What a text is read as. -/
structure Canonical (source : String) (path : Path) : Prop where
  trimmed : ∃ before after, source = padded before path.text after
  bare : Bare path.text.toList
  readAgain : parse path.text = .ok path
  joined : (String.singleton separator).intercalate path.parts = path.text
  parted : ∀ part ∈ path.parts, separator ∉ part.toList
  counted : path.parts.length = path.length ∧
    path.length = path.text.toList.count separator + 1
  first : ∃ part ∈ path.parts.head?, part ≠ ""
  last : ∃ part ∈ path.parts.getLast?, part ≠ ""
  alike : ∀ other, parse other = .ok path ↔ AlikeInside source other

theorem canonical_of_parse {source : String} {path : Path} (read : parse source = .ok path) :
    Canonical source path := by
  obtain ⟨present, text⟩ := (parse_ok_iff source path).mp read
  obtain ⟨bare, before, after, parts⟩ := trim_parts source.toList
  rw [← text] at present bare parts
  have trimmed : trim path.text.toList = path.text.toList := by
    have unpadded := trim_padding bare 0 0
    rwa [padding, List.replicate_zero, List.nil_append, List.append_nil] at unpadded
  constructor
  case trimmed => exact ⟨before, after, by rw [padded, ← parts, String.ofList_toList]⟩
  case bare => exact bare
  case readAgain =>
    rw [parse_ok_iff, trimmed]
    exact ⟨present, rfl⟩
  case joined => exact parts_joined path
  case parted =>
    intro part member
    apply separator_not_mem_segment path.text.toList
    rw [← parts_to_list]
    exact List.mem_map_of_mem member
  case counted =>
    refine ⟨rfl, ?_⟩
    rw [length, Path.parts, List.length_map, segments_length]
  case first => exact first_part bare present
  case last => exact last_part bare present
  case alike =>
    intro other
    rw [parse_ok_iff, alike_inside_iff, ← text]
    constructor
    · exact And.right
    · intro same
      exact ⟨same ▸ present, same⟩

/-- A text with nothing but separators is no path. Any other one is read as a path in canonical
form. -/
theorem read_canonically (source : String) :
    ((∀ character ∈ source.toList, character = separator) ∧ parse source = .error .empty) ∨
      (∃ character ∈ source.toList, character ≠ separator) ∧
        ∃ path, parse source = .ok path ∧ Canonical source path := by
  by_cases separators : ∀ character ∈ source.toList, character = separator
  · exact .inl ⟨separators, (parse_error_iff source).mpr ((trim_eq_nil_iff _).mpr separators)⟩
  · right
    have present := mt (trim_eq_nil_iff source.toList).mp separators
    refine ⟨by simpa using separators, ⟨String.ofList (trim source.toList)⟩, ?_⟩
    have read : parse source = .ok ⟨String.ofList (trim source.toList)⟩ :=
      (parse_ok_iff _ _).mpr ⟨present, String.toList_ofList⟩
    exact ⟨read, canonical_of_parse read⟩

example : parse "//second//sub/" = .ok ⟨"second//sub"⟩ ∧
    parts ⟨"second//sub"⟩ = ["second", "", "sub"] := by
  decide +kernel

end Reading

end Path

end Deliberation
