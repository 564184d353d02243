import ClusterBlueprint.Proofs.SortedMap
import ClusterBlueprint.Proofs.Text.Utf8
import ClusterBlueprint.Store.Memory
import Mathlib.Logic.Function.Basic

/-!
Commands to stores. What a store has to answer is said in terms of what is held under each name, and
nothing else can be answered (`isAnswer_unique`), so that any two stores that answer rightly answer
alike. The store in memory answers rightly.
-/

namespace ClusterBlueprint

/-- What is asked of a store. A store may also be opened again. -/
inductive StoreCommand where
  | put (e : Entity)
  | find (name : String)
  | remove (name : String)
  | names
  | reopen

inductive StoreAnswer where
  | done (result : Except StoreError Unit)
  | found (result : Except StoreError (Option Entity))
  | removed (result : Except StoreError Bool)
  | listed (result : Except StoreError (List String))

abbrev Contents := String → Option Entity

/-- Whether a name may be that of a file for an entity. -/
structure IsFittingName (name : String) : Prop where
  nul : '\x00' ∉ name.toList
  size : (name ++ ".json").utf8ByteSize ≤ 255

theorem isFittingName_iff {name : String} : IsFittingName name ↔
    '\x00' ∉ name.toList ∧ (name ++ ".json").utf8ByteSize ≤ 255 :=
  ⟨fun h => ⟨h.nul, h.size⟩, fun h => ⟨h.1, h.2⟩⟩

instance (name : String) : Decidable (IsFittingName name) :=
  decidable_of_iff' _ isFittingName_iff

namespace StoreCommand

/-- Whether the name in a command, if there is one, may be that of a file. -/
def Fits : StoreCommand → Prop
  | put e => IsFittingName e.blueprintName
  | find name => IsFittingName name
  | remove name => IsFittingName name
  | names => True
  | reopen => True

instance : DecidablePred Fits
  | put e => inferInstanceAs (Decidable (IsFittingName e.blueprintName))
  | find name => inferInstanceAs (Decidable (IsFittingName name))
  | remove name => inferInstanceAs (Decidable (IsFittingName name))
  | names => .isTrue trivial
  | reopen => .isTrue trivial

def update (held : Contents) : StoreCommand → Contents
  | put e =>
      if isStorableName e.blueprintName then Function.update held e.blueprintName (some e) else held
  | remove name => Function.update held name none
  | _ => held

/-- Whether an answer to a command is right while certain entities are held. -/
def IsAnswer (held : Contents) : StoreCommand → StoreAnswer → Prop
  | put e, answer => answer = .done
      (if isStorableName e.blueprintName then .ok () else .error (.invalidName e.blueprintName))
  | find name, answer => answer = .found (.ok (held name)) ∧
      (isStorableName name = false → held name = none)
  | remove name, answer => answer = .removed (.ok (held name).isSome)
  | names, answer => ∃ names, answer = .listed (.ok names) ∧
      (names.map Utf8.encode).Pairwise (· < ·) ∧ ∀ name, name ∈ names ↔ (held name).isSome
  | reopen, answer => answer = .done (.ok ())

def AreAnswers (held : Contents) : List StoreCommand → List StoreAnswer → Prop
  | [], answers => answers = []
  | command :: commands, answers => ∃ answer rest, answers = answer :: rest ∧
      IsAnswer held command answer ∧ AreAnswers (update held command) commands rest

theorem names_unique {names names' : List String}
    (h : (names.map Utf8.encode).Pairwise (· < ·)) (h' : (names'.map Utf8.encode).Pairwise (· < ·))
    (hmem : ∀ name, name ∈ names ↔ name ∈ names') : names = names' := by
  rw [List.pairwise_map] at h h'
  have hnodup {names : List String}
      (h : names.Pairwise fun a b => Utf8.encode a < Utf8.encode b) : names.Nodup := by
    apply h.imp
    rintro a _ hlt rfl
    exact List.lt_irrefl _ hlt
  apply List.Perm.eq_of_pairwise ?_ h h'
  · exact (List.perm_ext_iff_of_nodup (hnodup h) (hnodup h')).mpr hmem
  · intro a b _ _ hab hba
    exact absurd (List.lt_trans hab hba) (List.lt_irrefl _)

theorem isAnswer_unique {held : Contents} {command : StoreCommand} {answer answer' : StoreAnswer}
    (h : IsAnswer held command answer) (h' : IsAnswer held command answer') : answer = answer' := by
  cases command with
  | put e => exact h.trans h'.symm
  | find name => exact h.1.trans h'.1.symm
  | remove name => exact h.trans h'.symm
  | names =>
      obtain ⟨names, rfl, hsorted, hmem⟩ := h
      obtain ⟨names', rfl, hsorted', hmem'⟩ := h'
      rw [names_unique hsorted hsorted' fun name => (hmem name).trans (hmem' name).symm]
  | reopen => exact h.trans h'.symm

theorem areAnswers_unique {held : Contents} {commands : List StoreCommand}
    {answers answers' : List StoreAnswer} (h : AreAnswers held commands answers)
    (h' : AreAnswers held commands answers') : answers = answers' := by
  induction commands generalizing held answers answers' with
  | nil => exact h.trans h'.symm
  | cons command commands ih =>
      obtain ⟨answer, rest, rfl, hanswer, hrest⟩ := h
      obtain ⟨answer', rest', rfl, hanswer', hrest'⟩ := h'
      rw [isAnswer_unique hanswer hanswer', ih hrest hrest']

end StoreCommand

namespace BlueprintStore

variable {σ : Type}

/-- What a store answers to a command and how it is left; `reopen` opens it again. -/
def perform (store : BlueprintStore σ) (reopen : σ → Except StoreError σ) (s : σ) :
    StoreCommand → StoreAnswer × σ
  | .put e => (store.put e s).map .done id
  | .find name => (store.find name s).map .found id
  | .remove name => (store.remove name s).map .removed id
  | .names => (store.names s).map .listed id
  | .reopen =>
      match reopen s with
      | .ok s => (.done (.ok ()), s)
      | .error error => (.done (.error error), s)

def performAll (store : BlueprintStore σ) (reopen : σ → Except StoreError σ) (s : σ) :
    List StoreCommand → List StoreAnswer
  | [] => []
  | command :: commands =>
      let (answer, s) := store.perform reopen s command
      answer :: performAll store reopen s commands

/-- A store keeps what it should hold: commands with names that may be those of files are answered
rightly, and removing under any name removes nothing else. -/
structure Keeps (store : BlueprintStore σ) (reopen : σ → Except StoreError σ)
    (Holds : σ → Contents → Prop) : Prop where
  perform : ∀ {s held}, Holds s held → ∀ command : StoreCommand, command.Fits →
    command.IsAnswer held (store.perform reopen s command).1 ∧
      Holds (store.perform reopen s command).2 (command.update held)
  remove : ∀ {s held}, Holds s held → ∀ name,
    Holds (store.remove name s).2 (Function.update held name none)

namespace Keeps

variable {store : BlueprintStore σ} {openAgain : σ → Except StoreError σ}
  {Holds : σ → Contents → Prop} {s : σ} {held : Contents}

theorem find (h : store.Keeps openAgain Holds) (hs : Holds s held) {name : String}
    (hfits : IsFittingName name) :
    (store.find name s).1 = .ok (held name) := by
  obtain ⟨⟨hfound, -⟩, -⟩ := h.perform hs (.find name) hfits
  exact StoreAnswer.found.inj hfound

theorem put (h : store.Keeps openAgain Holds) (hs : Holds s held) {e : Entity}
    (hstorable : isStorableName e.blueprintName = true) (hfits : IsFittingName e.blueprintName) :
    (store.put e s).1 = .ok () ∧
      Holds (store.put e s).2 (Function.update held e.blueprintName (some e)) := by
  obtain ⟨hdone, hholds⟩ := h.perform hs (.put e) hfits
  rw [StoreCommand.update, if_pos hstorable] at hholds
  rw [StoreCommand.IsAnswer, if_pos hstorable] at hdone
  exact ⟨StoreAnswer.done.inj hdone, hholds⟩

theorem reopen (h : store.Keeps openAgain Holds) (hs : Holds s held) :
    ∃ s', openAgain s = .ok s' ∧ Holds s' held := by
  obtain ⟨hdone, hholds⟩ := h.perform hs .reopen trivial
  rw [BlueprintStore.perform] at hdone hholds
  cases hopen : openAgain s with
  | error error =>
      rw [hopen] at hdone
      nomatch hdone
  | ok s' =>
      rw [hopen] at hholds
      exact ⟨s', rfl, hholds⟩

theorem performAll (h : store.Keeps openAgain Holds) (hs : Holds s held)
    {commands : List StoreCommand} (hfits : ∀ command ∈ commands, command.Fits) :
    StoreCommand.AreAnswers held commands (store.performAll openAgain s commands) := by
  induction commands generalizing s held with
  | nil => rfl
  | cons command commands ih =>
      rw [List.forall_mem_cons] at hfits
      obtain ⟨hanswer, hs'⟩ := h.perform hs command hfits.1
      exact ⟨_, _, rfl, hanswer, ih hs' hfits.2⟩

end Keeps

end BlueprintStore

namespace EntityShelf

structure Holds (shelf : EntityShelf) (held : Contents) : Prop where
  found : ∀ name, SortedMap.get? shelf name = held name
  storable : ∀ name, isStorableName name = false → held name = none

theorem holds_empty : Holds ∅ fun _ => none where
  found _ := rfl
  storable _ _ := rfl

namespace Holds

variable {shelf : EntityShelf} {held : Contents}

theorem insert (h : Holds shelf held) {e : Entity} (he : isStorableName e.blueprintName = true) :
    Holds (SortedMap.insert shelf e.blueprintName e)
      (Function.update held e.blueprintName (some e)) where
  found name := by
    rw [SortedMap.get?_insert, Function.update_apply, h.found]
  storable name hname := by
    have hne : name ≠ e.blueprintName := by
      rintro rfl
      rw [he] at hname
      nomatch hname
    rw [Function.update_of_ne hne, h.storable name hname]

theorem erase (h : Holds shelf held) (name : String) :
    Holds (SortedMap.erase shelf name) (Function.update held name none) where
  found name' := by
    rw [SortedMap.get?_erase, Function.update_apply, h.found]
  storable name' hname' := by
    rw [Function.update_apply]
    split
    · rfl
    · exact h.storable name' hname'

end Holds

theorem put_eq (shelf : EntityShelf) (e : Entity) :
    store.put e shelf = if isStorableName e.blueprintName then
      (.ok (), SortedMap.insert shelf e.blueprintName e)
    else (.error (.invalidName e.blueprintName), shelf) := by
  simp only [store, put]
  cases isStorableName e.blueprintName <;> rfl

theorem keeps : store.Keeps .ok Holds where
  perform := by
    intro shelf held h command hfits
    cases command with
    | put e =>
        rw [BlueprintStore.perform, put_eq, StoreCommand.IsAnswer, StoreCommand.update]
        cases he : isStorableName e.blueprintName with
        | true => exact ⟨rfl, h.insert he⟩
        | false => exact ⟨rfl, h⟩
    | find name =>
        refine ⟨⟨?_, h.storable name⟩, h⟩
        rw [← h.found]
        rfl
    | remove name =>
        refine ⟨?_, h.erase name⟩
        rw [StoreCommand.IsAnswer, ← h.found]
        rfl
    | names =>
        refine ⟨⟨SortedMap.keys shelf, rfl, ?_, fun name => ?_⟩, h⟩
        · exact List.pairwise_map.mpr (shelf.sorted.imp Utf8.encode_lt)
        · rw [← h.found, ← SortedMap.contains_eq_true_iff]
          rfl
    | reopen => exact ⟨rfl, h⟩
  remove h name := h.erase name

end EntityShelf

end ClusterBlueprint
