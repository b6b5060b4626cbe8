/-
# No two tables have one name

The table of a component is told by the place of the component, and a table
that a credential needs by the sink and by the last part of its name. The ids
of components differ, and a name belongs to one place only; so the tables of a
configuration have different names, and each can be found by its name.

Key definitions: `Output.kind`, `Credential.Kind.suffixes`, `Plan.places`.
Key theorems: `Plan.map_name_tables`, `Plan.Sound.names_nodup`.
-/
import LogForwarding.Proofs.Document.Composition

namespace LogForwarding

open Toml

/-! ### What decides which tables a sink has -/

/-- The kind of credential that an output has: the first one that its type supports and of which
its secret holds a key. Only which keys are there matters, and not their values. -/
def Output.kind (o : Output) (secrets : Secrets) : Credential.Kind :=
  ((o.secret.bind (secrets[·]?)).bind fun secret =>
    o.type.credentialKinds.find? (·.keys.any (· ∈ secret))).getD .anonymous

/-- The secret of the output is there and holds the key. -/
def Output.holds (o : Output) (secrets : Secrets) (key : String) : Bool :=
  (o.secret.bind (secrets[·]?)).any (key ∈ ·)

/-- The last parts of the names of the tables that follow the one of a sink: for a user name and a
password, and for TLS where there is a client certificate or trusted ones. -/
def Credential.Kind.suffixes (trusted : Bool) (kind : Kind) : List String :=
  (if kind = .basic then ["auth"] else []) ++
    if kind = .mutualTls ∨ trusted then ["tls"] else []

theorem Output.kind_of_credential {o : Output} {secrets : Secrets} {credential : Credential}
    (h : o.credential secrets = .ok credential) : credential.kind = o.kind secrets := by
  unfold Output.credential at h
  unfold Output.kind
  split at h
  · rename_i hname
    cases h
    rw [hname]
    rfl
  · rename_i name hname
    rw [hname, Option.bind_some]
    split at h
    · cases h
    · rename_i secret hsecret
      rw [hsecret, Option.bind_some]
      split at h
      · rename_i hkind
        cases h
        rw [hkind]
        rfl
      · rename_i kind hkind
        rw [hkind]
        split at h
        · cases h
        · exact Credential.kind_of_ofSecret? (credentialOfKind_eq_ok_iff.1 h)

theorem Output.isSome_caSecret? (o : Output) (secrets : Secrets) :
    (o.caSecret? secrets).isSome = o.holds secrets SecretKey.trustedCa := by
  unfold caSecret? holds
  cases o.secret with
  | none => rfl
  | some name => rw [Option.filter_some, Option.bind_some]; split_ifs with h <;> simp [h]

namespace Credential

theorem Kind.suffixes_nodup (trusted : Bool) (kind : Kind) : (kind.suffixes trusted).Nodup := by
  cases kind <;> cases trusted <;> decide

theorem map_name_tables (settings : Settings) (sinkId : String) (trustedCa : Option String)
    (credential : Credential) :
    (credential.tables settings sinkId trustedCa).map Table.name =
      (credential.kind.suffixes trustedCa.isSome).map fun suffix =>
        "sinks." ++ sinkId ++ "." ++ suffix := by
  cases credential <;> cases trustedCa <;> rfl

end Credential

/-! ### The places of tables -/

namespace Plan

variable {plan : Plan} {secrets : Secrets} {settings : Settings}
  {served : List (Output × Credential)}

/-- The ids of the transforms. -/
def transformIds (plan : Plan) : List String :=
  (if plan.usesContainers then [routeId] else []) ++ plan.usedInputs.map Input.name ++
    plan.pipelines.map Pipeline.id

/-- The places of the tables of an output. -/
def sinkPlaces (secrets : Secrets) (o : Output) : List Place :=
  .sink o.id ::
    ((o.kind secrets).suffixes (o.holds secrets SecretKey.trustedCa)).map (.table o.id)

/-- The places of the tables. -/
def places (plan : Plan) (secrets : Secrets) : List Place :=
  plan.usedLogs.map (.source ·.id) ++
    (plan.transformIds.map .transform ++ plan.referenced.flatMap (sinkPlaces secrets))

theorem map_name_sinkTables (settings : Settings) {o : Output} {credential : Credential}
    (h : o.credential secrets = .ok credential) :
    (plan.sinkTables secrets settings o credential).map Table.name =
      (sinkPlaces secrets o).map Place.name := by
  rw [sinkTables, List.map_cons, Credential.map_name_tables, Output.isSome_caSecret?,
    Output.kind_of_credential h, sinkPlaces, List.map_cons, List.map_map]
  rfl

/-- Tables are named by their places. -/
theorem map_name_tables (hs : plan.served secrets = .ok served) (settings : Settings) :
    (plan.tables secrets settings served).map Table.name =
      (plan.places secrets).map Place.name := by
  obtain ⟨hreferenced, hcredentials⟩ := served_eq_ok_iff.1 hs
  have hsources : (plan.usedLogs.map fun log => [log.table settings]).flatten.map Table.name =
      (plan.usedLogs.map fun log => Place.source log.id).map Place.name := by
    simp only [← List.flatMap_def, ← List.map_eq_flatMap, List.map_map]
    rfl
  have htransforms : (((if plan.usesContainers then [[routeTable]] else []) ++
        plan.usedInputs.map fun input => [input.table]) ++
        plan.pipelines.map fun p => [p.table]).flatten.map Table.name =
      (plan.transformIds.map Place.transform).map Place.name := by
    have hroute : (if plan.usesContainers then [[routeTable]] else []).flatten.map Table.name =
        (if plan.usesContainers then [routeId] else []).map fun id => "transforms." ++ id := by
      split_ifs <;> rfl
    simp only [transformIds, List.flatten_append, List.map_append, hroute, ← List.flatMap_def,
      ← List.map_eq_flatMap, List.map_map]
    rfl
  have hsinks : (served.map fun s =>
        plan.sinkTables secrets settings s.1 s.2).flatten.map Table.name =
      (plan.referenced.flatMap (sinkPlaces secrets)).map Place.name := by
    rw [← hreferenced, ← List.flatMap_def, List.map_flatMap, List.map_flatMap, List.flatMap_map]
    exact List.flatMap_congr fun s hmem => map_name_sinkTables settings (hcredentials s hmem)
  rw [tables, tableGroups, places, List.map_append, ← hsources, List.map_append, ← htransforms,
    ← hsinks]
  simp only [List.flatten_append, List.map_append, List.append_assoc]

namespace Sound

theorem transformIds_nodup (h : plan.Sound) : plan.transformIds.Nodup := by
  refine h.transforms_nodup.sublist ?_
  have hroute : (if plan.usesContainers then [routeId] else []).Sublist [routeId] := by
    split_ifs <;> simp
  have hinputs : (plan.usedInputs.map Input.name).Sublist (Input.all.map Input.name) :=
    List.filter_sublist.map Input.name
  have hall : plan.transforms.map Prod.fst =
      [routeId] ++ Input.all.map Input.name ++ plan.pipelines.map Pipeline.id := by
    simp [transforms, Function.comp_def]
  rw [hall]
  exact (hroute.append hinputs).append (.refl _)

/-- No two tables have one place. -/
theorem places_nodup (h : plan.Sound) (secrets : Secrets) : (plan.places secrets).Nodup := by
  have hlogs : (plan.usedLogs.map fun log => Place.source log.id).Nodup := by
    have hall : NodeLog.all.Nodup := by decide
    exact (hall.filter _).map fun a b hab => NodeLog.id_injective (Place.source.inj hab)
  have htransforms : (plan.transformIds.map Place.transform).Nodup :=
    h.transformIds_nodup.map fun a b => Place.transform.inj
  have hsinks : (plan.referenced.flatMap (sinkPlaces secrets)).Nodup := by
    refine List.nodup_flatMap.2 ⟨fun o _ => ?_, ?_⟩
    · refine List.nodup_cons.2 ⟨by simp, ?_⟩
      exact (Credential.Kind.suffixes_nodup _ _).map fun a b hab => (Place.table.inj hab).2
    · refine (List.pairwise_map.1 h.referenced_ids_nodup).imp fun {o o'} hne place hp hp' => hne ?_
      simp only [sinkPlaces, List.mem_cons, List.mem_map] at hp hp'
      rcases hp with rfl | ⟨_, _, rfl⟩ <;> simp_all
  refine List.nodup_append'.2 ⟨hlogs, List.nodup_append'.2 ⟨htransforms, hsinks, ?_⟩, ?_⟩
  · simp [List.Disjoint, sinkPlaces]
  · simp [List.Disjoint, sinkPlaces]

/-- The parts of a place are spelled with the characters of component ids. -/
theorem spelled_of_mem_places (h : plan.Sound) {p : Place} (hp : p ∈ plan.places secrets) :
    (∀ c ∈ p.middle.toList, isIdChar c) ∧ ∀ last ∈ p.last?, ∀ c ∈ last.toList, isIdChar c := by
  have hbuiltin : ∀ id ∈ builtinIds, id.toList.all isIdChar := by decide +kernel
  have hsuffix : ∀ (kind : Credential.Kind) (trusted : Bool), ∀ last ∈ kind.suffixes trusted,
      last.toList.all isIdChar := by
    rintro (_ | _ | _ | _) <;> decide +kernel
  simp only [List.all_eq_true] at hbuiltin hsuffix
  simp only [places, transformIds, List.mem_append, List.mem_map, List.mem_flatMap] at hp
  rcases hp with ⟨log, _, rfl⟩ | ⟨id, hid, rfl⟩ | ⟨o, ho, hp⟩
  · have hid : log.id ∈ builtinIds := by cases log <;> decide
    exact ⟨hbuiltin log.id hid, by simp [Place.last?]⟩
  · refine ⟨?_, by simp [Place.last?]⟩
    rcases hid with (hid | ⟨input, _, rfl⟩) | ⟨p, hp, rfl⟩
    · have hroute : id = routeId := by
        split_ifs at hid
        · exact List.mem_singleton.1 hid
        · cases hid
      exact hroute ▸ hbuiltin routeId (by decide)
    · exact hbuiltin input.name (by cases input <;> decide)
    · intro c hc
      rw [Place.middle, h.pipeline_id p hp] at hc
      exact isIdChar_of_mem_componentId hc
  · have hid : ∀ c ∈ o.id.toList, isIdChar c := by
      rw [h.output_id o (mem_list_of_mem_referenced ho)]
      exact fun c hc => isIdChar_of_mem_componentId hc
    simp only [sinkPlaces, List.mem_cons, List.mem_map] at hp
    rcases hp with rfl | ⟨last, hlast, rfl⟩
    · exact ⟨hid, by simp [Place.last?]⟩
    · exact ⟨hid, by simpa [Place.last?] using hsuffix _ _ last hlast⟩

theorem plain_of_mem_places (h : plan.Sound) {p : Place} (hp : p ∈ plan.places secrets) :
    p.Plain := fun hpoint =>
  absurd ((h.spelled_of_mem_places hp).1 '.' hpoint) (by decide)

/-- No two places have one name. -/
theorem map_name_places_nodup (h : plan.Sound) (secrets : Secrets) :
    ((plan.places secrets).map Place.name).Nodup := by
  refine (h.places_nodup secrets).map_on fun p hp q hq hname => ?_
  exact Place.eq_of_name_eq (h.plain_of_mem_places hp) (h.plain_of_mem_places hq) hname

/-- **No two tables have one name.** -/
theorem names_nodup (h : plan.Sound) (hs : plan.served secrets = .ok served) (settings : Settings) :
    ((plan.tables secrets settings served).map Table.name).Nodup := by
  rw [map_name_tables hs]
  exact h.map_name_places_nodup secrets

end Sound

end Plan

end LogForwarding
