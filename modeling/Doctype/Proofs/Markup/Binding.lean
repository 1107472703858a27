import Doctype.Proofs.Graph.Build
import Doctype.Proofs.Markup.Interruption

/-!
The parameter entities that a scan knows are those of the graph of its events. At every point
of a scan, also inside of entities and external texts, the table of the scan says of a name
what the graph that is built from the events so far says of it; and what a name stands for does
not change any more (`Source.stateAt_agrees`).

Both sides are compared with the first event that defines the name (`Reflects`). The points of
a scan are the ends of scans that are cut short after a number of events.
-/

namespace Doctype

def Recording.upTo (n : Nat) : Handler Recording where
  accept r e := if r.events.size < n then handler.accept r e else .error .endOfDtd
  finish := handler.finish

namespace Markup

variable {σ : Type}

def Replacement.definition : Replacement → Entity.Definition
  | internal value => .literal value
  | external id _ => .external id none

def replacement? (base : Option Location) (name : Text) : Event → Option Replacement
  | .entity .parameter owner raw =>
    if owner = name then Replacement.ofDefinition? base raw else none
  | _ => none

theorem map_definition_replacement? (base : Option Location) (name : Text) (e : Event) :
    (replacement? base name e).map Replacement.definition =
      e.entityDefinition? .parameter name := by
  have hread (raw : Text) : (Replacement.ofDefinition? base raw).map Replacement.definition =
      Entity.Definition.ofRaw? .parameter raw := by
    unfold Replacement.ofDefinition? Entity.Definition.ofRaw?
    cases Entity.Definition.parse raw with
    | error e => rfl
    | ok d =>
        cases d with
        | literal value => rfl
        | external id notationName => cases notationName <;> rfl
  cases e with
  | entity scope owner raw =>
      cases scope with
      | general => simp [replacement?, Event.entityDefinition?]
      | parameter =>
          by_cases howner : owner = name
          · simp only [replacement?, Event.entityDefinition?, howner, and_self, if_true]
            exact hread raw
          · simp [replacement?, Event.entityDefinition?, howner]
  | _ => rfl

/-- A name keeps what it stands for, and one that stands for nothing takes what the event
says. -/
theorem lookup_define (base : Option Location) (e : Event) (s : State σ) (name : Text) :
    (s.define base e).entities.lookup name =
      (s.entities.lookup name).or (replacement? base name e) := by
  cases e with
  | entity scope owner raw =>
      cases scope with
      | general => exact (Option.or_none).symm
      | parameter =>
          simp only [State.define, replacement?]
          by_cases howner : owner = name
          · subst howner
            cases hlookup : s.entities.lookup owner with
            | some r => simp [hlookup]
            | none =>
              cases hraw : Replacement.ofDefinition? base raw with
              | some r => simp [List.lookup_append, hlookup]
              | none => simp [hlookup]
          · have hne : (name == owner) = false := by simpa using Ne.symm howner
            rw [if_neg howner, Option.or_none]
            split
            · simp [List.lookup_append, List.lookup_cons, hne]
            · rfl
  | _ => exact (Option.or_none).symm

/-! ### What every part of a scan keeps -/

/-- The table of a state says of every name what the first of the recorded events says that
defines it. -/
def Reflects (s : State Recording) : Prop :=
  ∀ name, (s.entities.lookup name).map Replacement.definition =
    (s.handled.events.toList.filterMap (·.entityDefinition? .parameter name)).head?

/-- A state that comes after another one has the events of that one and maybe more; it knows
the names that the other one knows, by the same replacements; and its table is right if the
other one was. -/
structure Continues (s t : State Recording) : Prop where
  events : s.handled.events.toList <+: t.handled.events.toList
  lookup : ∀ {name r}, s.entities.lookup name = some r → t.entities.lookup name = some r
  reflects : Reflects s → Reflects t

namespace Continues

variable {s t u : State Recording}

theorem trans (h : Continues s t) (h' : Continues t u) : Continues s u :=
  ⟨h.events.trans h'.events, fun hr => h'.lookup (h.lookup hr),
    fun hs => h'.reflects (h.reflects hs)⟩

theorem of_eq (hevents : t.handled.events = s.handled.events)
    (hentities : t.entities = s.entities) : Continues s t where
  events := by simp [hevents]
  lookup hr := by rwa [hentities]
  reflects hs name := by rw [hevents, hentities, hs name]

theorem event {base : Option Location} {e : Event} {handled : Recording}
    (hevents : handled.events = s.handled.events.push e) :
    Continues s (State.define base e { s with handled }) where
  events := by simp [handled_define, hevents]
  lookup hr := by simp [lookup_define, hr]
  reflects hs name := by
    have hone : (List.filterMap (·.entityDefinition? .parameter name) [e]).head? =
        e.entityDefinition? .parameter name := by
      cases h : e.entityDefinition? .parameter name <;> simp [h]
    rw [lookup_define, handled_define, hevents, Array.toList_push, List.filterMap_append,
      List.head?_append,
      hone, ← hs name, ← map_definition_replacement? base name e, Option.map_or]

end Continues

/-- A handler that records may be cut short at `n` events, if it does not stop earlier
itself. -/
theorem interrupts_upTo {n : Nat} {h : Handler Recording} (resolver : Resolver)
    (limits : Limits)
    (haccept : ∀ {r e}, r.events.size < n → h.accept r e = Recording.handler.accept r e)
    (hrecords : ∀ {r e r'}, h.accept r e = .ok r' → r'.events = r.events.push e)
    (hfinish : h.finish = Recording.handler.finish) :
    Interrupts ⟨h, resolver, limits⟩ (Recording.upTo n) (n ≤ ·.events.size) Continues where
  accept_eq r e := by
    by_cases hroom : r.events.size < n
    · exact .inl (by simp [Recording.upTo, hroom, haccept hroom])
    · exact .inr ⟨⟨.endOfDtd, by simp [Recording.upTo, hroom]⟩, by omega⟩
  finish_eq := hfinish.symm
  trans := Continues.trans
  still hhandled hentities := .of_eq (by rw [hhandled]) hentities
  event hok := .event (hrecords hok)
  finish hok := by
    rw [hfinish] at hok
    cases hok
    exact .of_eq rfl rfl

theorem upTo_accept_eq_ok {n : Nat} {r r' : Recording} {e : Event}
    (h : (Recording.upTo n).accept r e = .ok r') :
    r.events.size < n ∧ r'.events = r.events.push e := by
  simp only [Recording.upTo, Recording.handler] at h
  split at h
  · cases h
    exact ⟨‹_›, rfl⟩
  · cases h

theorem bounded_upTo (n : Nat) (resolver : Resolver) (limits : Limits) :
    Interrupts ⟨Recording.upTo n, resolver, limits⟩ (Recording.upTo n) (fun _ => False)
      fun s t => s.handled.events.size ≤ n → t.handled.events.size ≤ n where
  accept_eq _ _ := .inl rfl
  finish_eq := rfl
  trans h h' hs := h' (h hs)
  still hhandled _ hs := by rwa [hhandled]
  event hok _ := by
    obtain ⟨hroom, hpush⟩ := upTo_accept_eq_ok hok
    rw [handled_define, hpush, Array.size_push]
    exact hroom
  finish hok hs := by
    cases hok
    exact hs

/-- The table of a state says what a graph says: what a name is replaced by is the literal, or
the external text, that the graph defines the parameter entity as, and a name without a
replacement is none of these. -/
structure Agrees (s : State σ) (g : Graph) : Prop where
  internal : ∀ name value, s.entities.lookup name = some (.internal value) ↔
    (g.entity? .parameter name).map (·.definition) = some (.literal value)
  external : ∀ name id, (∃ base, s.entities.lookup name = some (.external id base)) ↔
    (g.entity? .parameter name).map (·.definition) = some (.external id none)

theorem Reflects.agrees {s : State Recording} (h : Reflects s) (limits : Limits) :
    Agrees s (Graph.build limits s.handled.events.toList).graph := by
  have hname (name : Text) := (Graph.definition_build limits _ _ name).trans (h name).symm
  constructor
  · intro name value
    rw [hname]
    cases s.entities.lookup name with
    | none => simp
    | some r => cases r <;> simp [Replacement.definition]
  · intro name id
    rw [hname]
    cases s.entities.lookup name with
    | none => simp
    | some r => cases r <;> simp [Replacement.definition]

end Markup

namespace Source

open Markup

/-- The state of a scan of a source where `n` events are reported and the next one is to come,
or at the end if there is none. -/
def stateAt (s : Source) (resolver : Resolver) (limits : Limits) (n : Nat) : State Recording :=
  endState (s.scan ⟨Recording.upTo n, resolver, limits⟩) (.start .empty)

def stateAtEnd (s : Source) (resolver : Resolver) (limits : Limits) : State Recording :=
  endState (s.scan ⟨Recording.handler, resolver, limits⟩) (.start .empty)

section Points

variable (s : Source) (resolver : Resolver) (limits : Limits)

theorem handled_stateAtEnd :
    (s.stateAtEnd resolver limits).handled =
      (s.run resolver limits Recording.handler .empty).1 := by
  unfold stateAtEnd endState run
  cases s.scan ⟨Recording.handler, resolver, limits⟩ (.start .empty) <;> rfl

theorem continues_stateAt {m n : Nat} (h : m ≤ n) :
    Continues (s.stateAt resolver limits m) (s.stateAt resolver limits n) := by
  have hearlier : Interrupts ⟨Recording.upTo n, resolver, limits⟩ (Recording.upTo m)
      (m ≤ ·.events.size) Continues :=
    interrupts_upTo resolver limits
      (fun hroom => by simp [Recording.upTo, Nat.lt_of_lt_of_le hroom h])
      (fun hok => (upTo_accept_eq_ok hok).2) rfl
  rcases (hearlier.source s).endState_cases (.start .empty) with hsame | ⟨-, hleads⟩
  · exact .of_eq (congrArg (·.handled.events) hsame).symm (congrArg State.entities hsame).symm
  · exact hleads

theorem reflects_stateAt (n : Nat) : Reflects (s.stateAt resolver limits n) := by
  have hearlier : Interrupts ⟨Recording.upTo n, resolver, limits⟩ (Recording.upTo n)
      (n ≤ ·.events.size) Continues :=
    interrupts_upTo resolver limits (fun hroom => by simp [Recording.upTo, hroom])
      (fun hok => (upTo_accept_eq_ok hok).2) rfl
  exact ((hearlier.source s).endState (.start .empty)).reflects fun _ => rfl

theorem size_stateAt_le (n : Nat) : (s.stateAt resolver limits n).handled.events.size ≤ n :=
  ((bounded_upTo n resolver limits).source s).endState (.start .empty) (Nat.zero_le n)

theorem stateAt_cases (n : Nat) :
    s.stateAt resolver limits n = s.stateAtEnd resolver limits ∨
      (s.stateAt resolver limits n).handled.events.size = n ∧
        Continues (s.stateAt resolver limits n) (s.stateAtEnd resolver limits) := by
  have hearlier : Interrupts ⟨Recording.handler, resolver, limits⟩ (Recording.upTo n)
      (n ≤ ·.events.size) Continues := by
    refine interrupts_upTo resolver limits (fun _ => rfl) (fun hok => ?_) rfl
    cases hok
    rfl
  rcases (hearlier.source s).endState_cases (.start .empty) with hsame | ⟨hstops, hleads⟩
  · exact .inl hsame
  · exact .inr ⟨Nat.le_antisymm (s.size_stateAt_le resolver limits n) hstops, hleads⟩

theorem events_stateAt (n : Nat) :
    (s.stateAt resolver limits n).handled.events.toList =
      (s.stateAtEnd resolver limits).handled.events.toList.take n := by
  rcases s.stateAt_cases resolver limits n with hend | ⟨hsize, hleads⟩
  · have hbound := s.size_stateAt_le resolver limits n
    rw [hend] at hbound ⊢
    rw [List.take_of_length_le (by simpa using hbound)]
  · have htake := List.prefix_iff_eq_take.mp hleads.events
    rwa [Array.length_toList, hsize] at htake

theorem stateAt_eq_stateAtEnd {n : Nat}
    (h : (s.stateAtEnd resolver limits).handled.events.size < n) :
    s.stateAt resolver limits n = s.stateAtEnd resolver limits := by
  rcases s.stateAt_cases resolver limits n with hend | ⟨hsize, hleads⟩
  · exact hend
  · have hle := hleads.events.length_le
    simp only [Array.length_toList] at hle
    omega

end Points

/-- The points of a scan are told by the events up to them, and the last one is the end. At
each of them the parameter entities agree with the graph that is built from these events, and
what a name is replaced by at one point it is replaced by at all later ones. -/
theorem stateAt_agrees (s : Source) (resolver : Resolver) (limits graphLimits : Limits) :
    let events := (s.run resolver limits Recording.handler .empty).1.events.toList
    (∀ n, (s.stateAt resolver limits n).handled.events.toList = events.take n) ∧
      (∀ n, events.length < n → s.stateAt resolver limits n = s.stateAtEnd resolver limits) ∧
      (∀ n, Agrees (s.stateAt resolver limits n)
        (Graph.build graphLimits (events.take n)).graph) ∧
      ∀ m n, m ≤ n → ∀ name r, (s.stateAt resolver limits m).entities.lookup name = some r →
        (s.stateAt resolver limits n).entities.lookup name = some r := by
  intro events
  -- the graph is built from the recorded events, which are those up to the point
  have hevents (n : Nat) : (s.stateAt resolver limits n).handled.events.toList =
      events.take n := by
    rw [events_stateAt, handled_stateAtEnd]
  refine ⟨hevents, fun n hn => ?_, fun n => ?_, fun m n hle name r hlookup => ?_⟩
  · refine s.stateAt_eq_stateAtEnd resolver limits ?_
    rwa [handled_stateAtEnd, ← Array.length_toList]
  · rw [← hevents]
    exact (s.reflects_stateAt resolver limits n).agrees graphLimits
  · exact (s.continues_stateAt resolver limits hle).lookup hlookup

/-- A resolver that gives out one text after the other, whatever it is asked. The internal
subset declares `a` and the first text declares `b`; the second one, which is the external
subset, declares both again: they stay what they were at first. -/
theorem stateAt_agrees_internalSubset :
    let s := Source.ofText .document
      "<!DOCTYPE d SYSTEM '/x' [<!ENTITY % a 'in'><!ENTITY % y SYSTEM '/y'>%y;]>"
    let texts : List Text :=
      ["<!ENTITY % b 'first'>", "<!ENTITY % a 'out'><!ENTITY % b 'second'>"]
    let resolver := Resolver.ofState texts fun texts _ =>
      (.ok ⟨.path "/x", texts.headD []⟩, texts.tail)
    let at3 := s.stateAt resolver .standard 3
    let at5 := s.stateAt resolver .standard 5
    at3.entities.lookup ['a'] = some (.internal "in") ∧
      at3.entities.lookup ['b'] = some (.internal "first") ∧
      at5.handled.events.size = 5 ∧ at5.asked.length = 2 ∧
      at5.entities.lookup ['a'] = some (.internal "in") ∧
      at5.entities.lookup ['b'] = some (.internal "first") := by
  intro s texts resolver at3 at5
  have ha : at3.entities.lookup ['a'] = some (.internal "in") := by decide +kernel
  have hb : at3.entities.lookup ['b'] = some (.internal "first") := by decide +kernel
  have hsize : at5.handled.events.size = 5 := by decide +kernel
  have hasked : at5.asked.length = 2 := by decide +kernel
  obtain ⟨-, -, -, hstays⟩ := s.stateAt_agrees resolver .standard .standard
  exact ⟨ha, hb, hsize, hasked, hstays 3 5 (by decide) ['a'] _ ha,
    hstays 3 5 (by decide) ['b'] _ hb⟩

end Source
end Doctype
