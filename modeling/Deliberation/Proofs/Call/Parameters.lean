import Deliberation.Proofs.Call.Renaming
import Deliberation.Proofs.Frame.Resolving
import Deliberation.Proofs.Term.Substitution

/-!
# Parameters and their arguments

A head whose arguments are distinct variables takes any leaves of a call. Here a link is
a parameter with its argument. The fresh frame has the bound arguments under their
parameters; a parameter with an unbound argument stays open and is asked for, and what it
is given in the frame goes back to the argument.
-/

namespace Deliberation

set_option autoImplicit false

theorem Frame.instantiate_arguments (frame : Frame) (functor : Path) {terms : List Term}
    (plain : ∀ term ∈ terms, term.isPlain = true) :
    frame.instantiate (.ofArguments functor terms) =
      .ofArguments functor (terms.map frame.resolve) := by
  have plainCall : (Literal.mk functor false false terms []).isPlain = true :=
    (Literal.is_plain_iff _).mpr ⟨plain, fun note member => absurd member List.not_mem_nil⟩
  exact frame.instantiate_plain [] functor false false terms [] plainCall

/-- Bindings whose names come in the order of these names are found by going through
them. -/
theorem find_bindings_in_order {names : List String} (distinct : names.Nodup)
    {bindings : Bindings} (inOrder : (bindings.map Prod.fst).Sublist names) :
    names.filterMap (fun name => (findBinding name bindings).map fun term => (name, term)) =
      bindings := by
  induction names generalizing bindings with
  | nil => exact (List.map_eq_nil_iff.mp (List.sublist_nil.mp inOrder)).symm
  | cons name rest ih =>
      obtain ⟨notLater, restDistinct⟩ := List.nodup_cons.mp distinct
      rcases List.sublist_cons_iff.mp inOrder with later | ⟨others, isHere, later⟩
      · have absent : findBinding name bindings = none :=
          find_binding_absent fun binding member isName =>
            notLater (later.subset (List.mem_map.mpr ⟨binding, member, isName⟩))
        rw [List.filterMap_cons_none (by rw [absent]; rfl)]
        exact ih restDistinct later
      · obtain ⟨⟨name, term⟩, behind, rfl, rfl, rfl⟩ := List.map_eq_cons_iff.mp isHere
        have here : findBinding name ((name, term) :: behind) = some term := if_pos rfl
        have elsewhere : ∀ other ∈ rest,
            findBinding other ((name, term) :: behind) = findBinding other behind := by
          intro other member
          refine if_neg ?_
          rintro rfl
          exact notLater member
        rw [List.filterMap_cons_some (by rw [here]; rfl)]
        refine congrArg _ (Eq.trans (List.filterMap_congr fun other member => ?_)
          (ih restDistinct later))
        rw [elsewhere other member]

namespace Links

variable (links : Bindings)

def parameters : List Term :=
  links.map fun link => .variable link.1

def arguments : List Term :=
  links.map Prod.snd

def given : Bindings :=
  links.filter fun link => link.2.unbound?.isNone

def asked : Bindings :=
  links.filterMap fun link => HeadMatch.wanted? (.variable link.1, link.2)

/-- The parameters whose arguments are unbound. -/
def openNames : List String :=
  links.filterMap fun link => link.2.unbound?.map fun _ => link.1

/-- What a parameter resolves to where the head has been matched. -/
def received (link : String × Term) : Term :=
  match link.2.unbound? with
  | some _ => .variable link.1
  | none => link.2

/-- From a parameter back to the variable that is its argument. -/
def backTo (name : String) : String :=
  ((findBinding name links).bind Term.unbound?).getD name

/-- Every argument is a raw value or an unbound variable. -/
def Simple : Prop :=
  ∀ link ∈ links, (∃ raw, link.2 = .value raw) ∨ ∃ name, link.2 = .variable name

def entryFrame (names : List String) : Frame :=
  (Frame.withVariables names).commit (given links)

theorem open_names_sublist : (openNames links).Sublist (links.map Prod.fst) := by
  induction links with
  | nil => exact List.Sublist.refl _
  | cons link rest ih =>
      rw [openNames, List.map_cons]
      cases free : link.2.unbound? with
      | none =>
          rw [List.filterMap_cons_none (by rw [free]; rfl)]
          exact ih.cons _
      | some name =>
          rw [List.filterMap_cons_some (by rw [free]; rfl)]
          exact ih.cons_cons _

theorem open_names_of_received :
    (links.map received).filterMap Term.unbound? = openNames links := by
  rw [openNames, List.filterMap_map]
  refine List.filterMap_congr fun link _ => ?_
  rw [Function.comp_apply, received]
  cases free : link.2.unbound? with
  | none => exact free
  | some name => rfl

theorem meet_parameters (found : HeadMatch)
    (fresh : ∀ link ∈ links, ∀ binding ∈ found.bindings, binding.1 ≠ link.1)
    (distinct : (links.map Prod.fst).Nodup) :
    HeadMatch.meetAll? ((parameters links).zip (arguments links)) found =
      some ⟨found.bindings ++ given links, found.exports ++ asked links⟩ := by
  induction links generalizing found with
  | nil => simp [parameters, given, asked, HeadMatch.meetAll?]
  | cons link rest ih =>
      rcases link with ⟨name, argument⟩
      obtain ⟨notLater, restDistinct⟩ := List.nodup_cons.mp distinct
      have freshLater : ∀ other ∈ rest, ∀ binding ∈ found.bindings, binding.1 ≠ other.1 :=
        fun other member => fresh other (List.mem_cons_of_mem _ member)
      have zipped : (parameters ((name, argument) :: rest)).zip
          (arguments ((name, argument) :: rest)) =
            (.variable name, argument) :: (parameters rest).zip (arguments rest) := rfl
      rw [zipped, HeadMatch.meetAll?, HeadMatch.meet?]
      cases free : argument.unbound? with
      | some other =>
          have later := ih { found with exports := found.exports ++ [(other, .variable name)] }
            freshLater restDistinct
          refine later.trans ?_
          simp [given, asked, HeadMatch.wanted?, free]
      | none =>
          have unmet : findBinding name found.bindings = none :=
            find_binding_absent (fresh _ List.mem_cons_self)
          have stillFresh : ∀ other ∈ rest, ∀ binding ∈ found.bindings ++ [(name, argument)],
              binding.1 ≠ other.1 := by
            intro other member binding bound
            rcases List.mem_append.mp bound with old | new
            · exact freshLater other member binding old
            · rw [List.mem_singleton.mp new]
              rintro rfl
              exact notLater (List.mem_map.mpr ⟨other, member, rfl⟩)
          have later := ih { found with bindings := found.bindings ++ [(name, argument)] }
            stillFresh restDistinct
          simp only [Term.unbound?, unmet]
          refine later.trans ?_
          simp [given, asked, HeadMatch.wanted?, free]

variable {links}

theorem Simple.flat (simple : Simple links) : Flat (arguments links) := by
  intro term member inner
  obtain ⟨link, isLink, rfl⟩ := List.mem_map.mp member
  rcases simple link isLink with ⟨raw, isValue⟩ | ⟨name, isFree⟩
  · simp [isValue]
  · simp [isFree]

theorem parameters_plain (functor : Path) :
    (Literal.ofArguments functor (parameters links)).isPlain = true := by
  refine (Literal.is_plain_iff _).mpr ⟨fun term member => ?_, fun _ member => by cases member⟩
  obtain ⟨link, _, rfl⟩ := List.mem_map.mp member
  rfl

theorem Simple.received_flat (simple : Simple links) : Flat (links.map received) := by
  intro term member inner
  obtain ⟨link, isLink, rfl⟩ := List.mem_map.mp member
  rcases simple link isLink with ⟨raw, isValue⟩ | ⟨name, isFree⟩
  · simp [received, isValue, Term.unbound?]
  · simp [received, isFree, Term.unbound?]

section Distinct

variable (distinct : (links.map Prod.fst).Nodup)

include distinct

theorem back_to_argument {name argument : String} (member : (name, .variable argument) ∈ links) :
    backTo links name = argument := by
  rw [backTo, find_binding_of_nodup distinct member]
  rfl

theorem relabel_received :
    (links.map received).map (Term.relabel (backTo links)) = arguments links := by
  rw [arguments, List.map_map]
  refine List.map_congr_left fun link member => ?_
  rcases link with ⟨name, argument⟩
  cases argument with
  | «variable» other => exact congrArg Term.variable (back_to_argument distinct member)
  | value | bound | literal => rfl

theorem asked_eq :
    asked links = (openNames links).map fun name => (backTo links name, .variable name) := by
  rw [asked, openNames, List.map_filterMap]
  refine List.filterMap_congr fun link member => ?_
  rcases link with ⟨name, argument⟩
  cases argument with
  | «variable» other =>
      exact congrArg (fun label => some (label, Term.variable name))
        (back_to_argument distinct member).symm
  | value | bound | literal => rfl

theorem parameters_met (flat : Flat (arguments links)) (functor : Path) :
    (Literal.ofArguments functor (parameters links)).matchHead?
        (.ofArguments functor (arguments links)) = some ⟨given links, asked links⟩ := by
  have flatParameters : Flat (parameters links) := by
    intro term member inner
    obtain ⟨link, _, rfl⟩ := List.mem_map.mp member
    simp
  have sameLength : (parameters links).length = (arguments links).length := by
    rw [parameters, arguments, List.length_map, List.length_map]
  have admits : (Literal.ofArguments functor (parameters links)).matchesValue .rotating
      (.ofArguments functor (arguments links)) = true :=
    Literal.matches_value_of_shape .rotating (flatParameters.value_shape_eq flat sameLength functor)
  rw [Literal.match_head_flat flat, if_pos ⟨rfl, rfl, admits⟩, flatParameters.leaves,
    meet_parameters links .empty (fun _ _ _ member => absurd member List.not_mem_nil) distinct]
  rfl

theorem entry_frame_open (names : List String) {name argument : String}
    (member : (name, .variable argument) ∈ links) :
    (entryFrame links names).value? name = none := by
  have notGiven : ∀ binding ∈ given links, binding.1 ≠ name := by
    rintro ⟨_, other⟩ isGiven rfl
    obtain ⟨isLink, isBound⟩ := List.mem_filter.mp isGiven
    have same := (find_binding_of_nodup distinct isLink).symm.trans
      (find_binding_of_nodup distinct member)
    rw [Option.some.inj same] at isBound
    simp [Term.unbound?] at isBound
  rw [entryFrame, Frame.value_eq, Frame.commit_content_absent _ _ _ notGiven, ← Frame.value_eq,
    Frame.with_variables_value]

theorem entry_frame_received (names : List String) (simple : Simple links)
    {link : String × Term} (member : link ∈ links) :
    (entryFrame links names).resolve (.variable link.1) = received link := by
  rcases link with ⟨name, argument⟩
  rcases simple _ member with ⟨raw, rfl⟩ | ⟨other, rfl⟩
  · have givenNames : ((given links).map Prod.fst).Nodup :=
      distinct.sublist (List.filter_sublist.map Prod.fst)
    have isGiven : (name, .value raw) ∈ given links := List.mem_filter.mpr ⟨member, rfl⟩
    refine Frame.resolve_raw ?_
    rw [entryFrame, Frame.value_eq, Frame.commit_content_of_nodup _ givenNames isGiven]
    rfl
  · exact Frame.resolve_absent (entry_frame_open distinct names member)

theorem parameters_received (names : List String) (simple : Simple links) (functor : Path) :
    (entryFrame links names).instantiate (.ofArguments functor (parameters links)) =
      .ofArguments functor (links.map received) := by
  have plain : ∀ term ∈ parameters links, term.isPlain = true :=
    ((Literal.is_plain_iff _).mp (parameters_plain functor)).1
  rw [Frame.instantiate_arguments _ functor plain, parameters, List.map_map]
  exact congrArg _ (List.map_congr_left fun link member =>
    entry_frame_received distinct names simple member)

/-- What an open parameter is given in the frame is asked for and goes back to its
argument; the answers keep their order. -/
theorem relayed_answers (names : List String) {answers : Bindings}
    (toOpen : (answers.map Prod.fst).Sublist (openNames links))
    (values : ∀ answer ∈ answers, ∃ raw, answer.2 = .value raw) :
    (asked links).filterMap (Candidate.export? ((entryFrame links names).commit answers)) =
      relabelNames (backTo links) answers := by
  have openDistinct : (openNames links).Nodup := distinct.sublist (open_names_sublist links)
  have answersDistinct : (answers.map Prod.fst).Nodup := openDistinct.sublist toOpen
  have each : ∀ name ∈ openNames links,
      Candidate.export? ((entryFrame links names).commit answers)
          (backTo links name, .variable name) =
        ((findBinding name answers).map fun term => (name, term)).map
          fun answer => (backTo links answer.1, answer.2) := by
    intro name isOpen
    rw [Candidate.export?]
    cases found : findBinding name answers with
    | some term =>
        have member := find_binding_mem found
        obtain ⟨raw, rfl⟩ := values _ member
        have held : ((entryFrame links names).commit answers).value? name =
            some (.value raw) := by
          rw [Frame.value_eq, Frame.commit_content_of_nodup _ answersDistinct member]
          rfl
        rw [Frame.resolve_raw held]
        rfl
    | none =>
        have absent : ∀ answer ∈ answers, answer.1 ≠ name := by
          rintro ⟨_, term⟩ member rfl
          rw [find_binding_of_nodup answersDistinct member] at found
          cases found
        obtain ⟨⟨parameter, argument⟩, member, isName⟩ := List.mem_filterMap.mp isOpen
        obtain ⟨other, free, rfl⟩ := Option.map_eq_some_iff.mp isName
        obtain rfl := (unbound_eq_some_iff ..).mp free
        have stillOpen : ((entryFrame links names).commit answers).value? parameter = none := by
          rw [Frame.value_eq, Frame.commit_content_absent _ _ _ absent, ← Frame.value_eq,
            entry_frame_open distinct names member]
        rw [Frame.resolve_absent stillOpen]
        rfl
  rw [asked_eq distinct, List.filterMap_map]
  calc (openNames links).filterMap _ = _ := List.filterMap_congr each
    _ = relabelNames (backTo links) ((openNames links).filterMap
        fun name => (findBinding name answers).map fun term => (name, term)) :=
      List.map_filterMap.symm
    _ = relabelNames (backTo links) answers := by
      rw [find_bindings_in_order openDistinct toOpen]

end Distinct

end Links

end Deliberation
