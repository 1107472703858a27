import Mathlib.Data.List.Induction
import Doctype.Proofs.Graph.Build

/-!
Elements with more than one attribute of type `ID`. What a build reports of them is exact
(`Graph.duplicateIds_build`): one diagnostic for each such element of the finished graph, in
the order of the first ones of these attributes, with the names of all of them. No other step
of a build reports anything of this kind.
-/

namespace Doctype

/-- Keys without their repetitions stand in the order of the first selected items that have
them. -/
theorem pairwise_findIdx_eraseDups {α κ : Type} [BEq κ] [LawfulBEq κ] [DecidableEq κ]
    (key : α → κ) (sel : α → Bool) (items : List α) :
    ((items.filter sel).map key).eraseDups.Pairwise fun k k' =>
      items.findIdx (fun a => key a = k && sel a) <
        items.findIdx (fun a => key a = k' && sel a) := by
  induction items generalizing sel with
  | nil => exact List.Pairwise.nil
  | cons a items ih =>
      cases ha : sel a with
      | false =>
          rw [List.filter_cons_of_neg (by simp [ha])]
          refine (ih sel).imp fun hlt => ?_
          simpa [List.findIdx_cons, ha] using hlt
      | true =>
          -- behind the first item with its key, only items with other keys count: the
          -- induction is for all selections
          let others (b : α) : Bool := sel b && key b ≠ key a
          have hrest : (((items.filter sel).map key).filter fun k => !k == key a) =
              (items.filter others).map key := by
            rw [List.filter_map, List.filter_filter]
            refine congrArg (List.map key) (List.filter_congr fun b _ => ?_)
            simp [others, Bool.and_comm, beq_eq_decide]
          have hother {k : κ} (hk : k ∈ ((items.filter others).map key).eraseDups) : key a ≠
              k := by
            obtain ⟨b, hb, rfl⟩ := List.mem_map.1 (List.mem_eraseDups.1 hk)
            have hne : sel b = true ∧ key b ≠ key a := by
              simpa [others] using (List.mem_filter.1 hb).2
            exact hne.2.symm
          have hplace {k : κ} (hk : key a ≠ k) :
              (a :: items).findIdx (fun b => key b = k && sel b) =
                items.findIdx (fun b => key b = k && others b) + 1 := by
            have hsame : (fun b => decide (key b = k) && sel b) = fun b =>
                decide (key b = k) && others b := by
              funext b
              by_cases hb : key b = k
              · have hne : key b ≠ key a := fun h => hk (h.symm.trans hb)
                simp [others, hne]
              · simp [hb]
            rw [← hsame, List.findIdx_cons, decide_eq_false hk]
            rfl
          rw [List.filter_cons_of_pos ha, List.map_cons, List.eraseDups_cons, hrest,
            List.pairwise_cons]
          constructor
          · intro k hk
            rw [hplace (hother hk)]
            simp [List.findIdx_cons, ha]
          · refine (ih others).imp_of_mem fun hk hk' hlt => ?_
            rw [hplace (hother hk), hplace (hother hk')]
            exact Nat.succ_lt_succ hlt

theorem eraseDups_concat {κ : Type} [BEq κ] [LawfulBEq κ] [DecidableEq κ] (keys : List κ)
    (k : κ) :
    (keys ++ [k]).eraseDups =
      if k ∈ keys.eraseDups then keys.eraseDups else keys.eraseDups ++ [k] := by
  rw [List.eraseDups_append]
  simp only [List.mem_eraseDups]
  split
  · next hk => simp [List.removeAll, hk]
  · next hk =>
      have hkept : [k].removeAll keys = [k] := by simp [List.removeAll, hk]
      rw [hkept, List.eraseDups_cons]
      simp

theorem Diagnostic.ofKind_append (kind : Kind) (ds ds' : List Diagnostic) :
    ofKind kind (ds ++ ds') = ofKind kind ds ++ ofKind kind ds' :=
  List.filter_append ..

theorem Diagnostic.ofKind_eq_nil {kind : Kind} {findings : List Finding}
    (h : ∀ f ∈ findings, f.diagnostic.kind ≠ kind) :
    ofKind kind (findings.map Finding.diagnostic) = [] := by
  simpa [ofKind, List.filter_eq_nil_iff] using h

theorem Event.kind_ne_of_mem_findings {limits : Limits} {e : Event} {f : Finding}
    (hf : f ∈ e.findings limits) : f.diagnostic.kind ≠ .duplicateIdAttribute := by
  unfold findings at hf
  cases e with
  | element name raw =>
      dsimp only at hf
      split at hf
      · cases hf
      · obtain rfl := List.mem_singleton.1 hf
        nofun
  | entity scope name raw =>
      dsimp only at hf
      split at hf
      · split at hf
        · obtain rfl := List.mem_singleton.1 hf
          nofun
        · cases hf
      · cases hf
      · obtain rfl := List.mem_singleton.1 hf
        nofun
  | «notationType» name raw =>
      dsimp only at hf
      split at hf
      · cases hf
      · obtain rfl := List.mem_singleton.1 hf
        nofun
  | _ => cases hf

theorem Event.kind_ne_of_mem_attributeFindings {g : Graph} {limits : Limits} {e : Event}
    {f : Finding} (hf : f ∈ e.attributeFindings g limits) :
    f.diagnostic.kind ≠ .duplicateIdAttribute := by
  unfold attributeFindings at hf
  split at hf
  · split at hf
    · obtain ⟨d, -, hf⟩ := List.mem_flatMap.1 hf
      unfold Attribute.Definition.findings at hf
      split at hf
      · cases hf
      · split at hf
        · obtain ⟨missing, -, rfl⟩ := List.mem_map.1 hf
          nofun
        · obtain rfl := List.mem_singleton.1 hf
          nofun
    · obtain rfl := List.mem_singleton.1 hf
      nofun
  · cases hf

namespace Graph

variable {g : Graph}

/-! ### Attributes of type `ID` -/

def idNames (g : Graph) (element : Text) : List Text :=
  (g.attributes.filter fun a => a.element = element && a.kind = .id).map (·.name)

def firstId (g : Graph) (element : Text) : Nat :=
  g.attributes.findIdx fun a => a.element = element && a.kind = .id

def withDuplicateIds (g : Graph) : List Text :=
  ((g.attributes.filter (·.kind = .id)).map (·.element)).eraseDups.filter fun e =>
    2 ≤ (g.idNames e).length

/-- The groups of the attributes that have the type `ID`. -/
theorem foldl_addId (items : List Attribute) : items.foldl addId [] =
    ((items.filter (·.kind = .id)).map (·.element)).eraseDups.map fun e =>
      (e, (items.filter fun a => a.element = e && a.kind = .id).map (·.name)) := by
  induction items using List.reverseRecOn with
  | nil => rfl
  | append_singleton items a ih =>
      rw [List.foldl_append, ih, List.foldl_cons, List.foldl_nil, addId]
      by_cases hkind : a.kind = .id
      · have hnew (h : a.element ∉ ((items.filter (·.kind = .id)).map (·.element)).eraseDups) :
            (items.filter fun b => b.element = a.element && b.kind = .id).map
              (·.name) = [] := by
          rw [List.map_eq_nil_iff, List.filter_eq_nil_iff]
          rintro b hb hsel
          obtain ⟨helement, hkind⟩ : b.element = a.element ∧ b.kind = .id := by
            simpa using hsel
          refine h (List.mem_eraseDups.2 (List.mem_map.2 ⟨b, ?_, helement⟩))
          exact List.mem_filter.2 ⟨hb, by simpa using hkind⟩
        have hlast : [a].filter (·.kind = .id) = [a] :=
          List.filter_cons_of_pos (by simpa using hkind)
        have hvalues (e : Text) :
            ((items ++ [a]).filter fun b => b.element = e && b.kind = .id) =
            (items.filter fun b => b.element = e && b.kind = .id) ++
              if e = a.element then [a] else [] := by
          by_cases he : e = a.element
          · simp [he, hkind]
          · simp [he, Ne.symm he]
        rw [if_pos hkind, Table.addTo_map hnew, List.filter_append, hlast, List.map_append,
          List.map_singleton, eraseDups_concat]
        simp only [hvalues, List.map_append, apply_ite (List.map _), List.map_singleton,
          List.map_nil]
      · simp [hkind]

theorem duplicateIds_eq (g : Graph) :
    g.duplicateIds = g.withDuplicateIds.map fun e => .duplicateId e (g.idNames e) := by
  rw [duplicateIds, foldl_addId, List.filterMap_map, withDuplicateIds]
  conv_rhs => rw [← List.filterMap_eq_map, List.filterMap_filter]
  refine List.filterMap_congr fun e _ => ?_
  simp [idNames, Nat.succ_le_iff]

theorem mem_withDuplicateIds_iff {e : Text} :
    e ∈ g.withDuplicateIds ↔ 2 ≤ (g.idNames e).length := by
  unfold withDuplicateIds
  rw [List.mem_filter, List.mem_eraseDups, decide_eq_true_eq]
  refine and_iff_right_of_imp fun hmany => ?_
  obtain ⟨n, hn⟩ := List.exists_mem_of_length_pos (Nat.lt_of_lt_of_le Nat.zero_lt_two hmany)
  obtain ⟨a, ha, rfl⟩ := List.mem_map.1 hn
  obtain ⟨hmem, rfl, hkind⟩ : a ∈ g.attributes ∧ a.element = e ∧ a.kind = .id := by
    simpa using ha
  exact List.mem_map.2 ⟨a, List.mem_filter.2 ⟨hmem, by simpa using hkind⟩, rfl⟩

theorem pairwise_withDuplicateIds (g : Graph) :
    g.withDuplicateIds.Pairwise (g.firstId · < g.firstId ·) := by
  have hfirst := pairwise_findIdx_eraseDups Attribute.element (fun a => decide (a.kind = .id))
    g.attributes
  exact hfirst.filter fun e => 2 ≤ (g.idNames e).length

theorem Keyed.nodup_idNames (h : g.Keyed) (e : Text) : (g.idNames e).Nodup := by
  have helement {a : Attribute}
      (ha : a ∈ g.attributes.filter fun a => a.element = e && a.kind = .id) :
      a ∈ g.attributes ∧ a.element = e := by
    simp only [List.mem_filter, Bool.and_eq_true, decide_eq_true_eq] at ha
    exact ⟨ha.1, ha.2.1⟩
  refine List.Nodup.map_on (fun a ha b hb hname => ?_) (h.attributes.of_map.filter _)
  obtain ⟨hmem, hea⟩ := helement ha
  obtain ⟨hmem', heb⟩ := helement hb
  exact List.inj_on_of_nodup_map h.attributes hmem hmem' (Prod.ext (hea.trans heb.symm) hname)

theorem Keyed.mem_idNames_iff (h : g.Keyed) {e n : Text} :
    n ∈ g.idNames e ↔ (g.attribute? e n).map (·.kind) = some .id := by
  have hfind (a : Attribute) : g.attribute? e n = some a ↔ a ∈ g.attributes ∧
      attributeKey a = (e, n) :=
    Table.find?_eq_some_iff h.attributes
  simp only [idNames, List.mem_map, List.mem_filter, Option.map_eq_some_iff, hfind,
    attributeKey, Prod.mk.injEq, Bool.and_eq_true, decide_eq_true_eq]
  constructor
  · rintro ⟨a, ⟨ha, he, hkind⟩, hn⟩
    exact ⟨a, ⟨ha, he, hn⟩, hkind⟩
  · rintro ⟨a, ⟨ha, he, hn⟩, hkind⟩
    exact ⟨a, ⟨ha, he, hkind⟩, hn⟩

/-- What is found of elements with more than one attribute of type `ID` in the events, in a
graph that is built of them: one diagnostic for each such element, in the order of the first of
these attributes, which lists them all in their order. An attribute counts by its last
definition whose value has a normal form. -/
theorem duplicateIds_build (limits : Limits) (events : List Event) :
    let g := (build limits events).graph
    ∃ elements : List Text,
      Diagnostic.ofKind .duplicateIdAttribute
        ((build limits events).findings.map Finding.diagnostic) =
        elements.map (fun e => ⟨.duplicateIdAttribute,
          "element '" ++ e ++ "' declares more than one ID attribute: " ++
            Text.join ", ".toList (g.idNames e), some e⟩) ∧
      (∀ e, e ∈ elements ↔ 2 ≤ (g.idNames e).length) ∧
      elements.Pairwise (g.firstId · < g.firstId ·) ∧
      (∀ e, (g.idNames e).Nodup) ∧
      ∀ e n, n ∈ g.idNames e ↔
        ((((events.flatMap (·.attributeDefinitions e)).filter (·.name = n)).filterMap
          (·.normalized? g limits)).getLast?).map (·.1) = some .id := by
  intro g
  have hkeyed : g.Keyed := (inserted_build limits events).keyed
  refine ⟨g.withDuplicateIds, ?_, fun e => mem_withDuplicateIds_iff,
    g.pairwise_withDuplicateIds, hkeyed.nodup_idNames, fun e n => ?_⟩
  · have hevents : Diagnostic.ofKind .duplicateIdAttribute
        ((events.flatMap (·.findings limits)).map Finding.diagnostic) = [] := by
      refine Diagnostic.ofKind_eq_nil fun f hf => ?_
      obtain ⟨e, -, hf⟩ := List.mem_flatMap.1 hf
      exact Event.kind_ne_of_mem_findings hf
    have hlists : Diagnostic.ofKind .duplicateIdAttribute
        ((events.flatMap (·.attributeFindings g limits)).map Finding.diagnostic) = [] := by
      refine Diagnostic.ofKind_eq_nil fun f hf => ?_
      obtain ⟨e, -, hf⟩ := List.mem_flatMap.1 hf
      exact Event.kind_ne_of_mem_attributeFindings hf
    have hids : Diagnostic.ofKind .duplicateIdAttribute
        (g.duplicateIds.map Finding.diagnostic) =
        g.withDuplicateIds.map fun e => (Finding.duplicateId e (g.idNames e)).diagnostic := by
      rw [duplicateIds_eq, List.map_map]
      refine List.filter_eq_self.2 fun d hd => ?_
      obtain ⟨e, -, rfl⟩ := List.mem_map.1 hd
      rfl
    rw [findings_build, List.map_append, List.map_append, Diagnostic.ofKind_append,
      Diagnostic.ofKind_append, hevents, hlists]
    exact hids
  · rw [hkeyed.mem_idNames_iff, ← attribute_build, Option.map_map]
    rfl

end Graph
end Doctype
