/-
# Components do not clash

At each place of a configuration stands one element, although it may be
contributed many times: by every pipeline that reads a log, and by every sink
that uses a secret. What stands at a place follows from the place and the
plan, so all that pipelines and sinks contribute, at every depth, is coherent.

Key definitions: `Plan.Stands`, `Credential.places`.
Key theorems: `Plan.Sound.stands_unique`, `Plan.Sound.name_of_stands`,
`Plan.Sound.coherent_of_stands`.
-/
import LogForwarding.Proofs.Component.Place
import LogForwarding.Proofs.Component.Whole
import LogForwarding.Proofs.Credential
import LogForwarding.Proofs.Resolution.Sound

namespace LogForwarding

/-! ### The parts of a sink -/

namespace Credential

/-- The place of the lines of a credential. -/
def place (credential : Credential) : Place := .credential credential.kind credential.secret?

/-- The places of what a sink embeds for its credential and for trusted certificates. -/
def places (sinkId : String) (trustedCa : Option String) (credential : Credential) : List Place :=
  match credential, trustedCa with
  | mutualTls .., _ => [.table sinkId "tls", credential.place]
  | anonymous, none => [credential.place]
  | anonymous, some secret => [.table sinkId "tls", .trustedCa secret]
  | basic .., none => [.table sinkId "auth", credential.place]
  | basic .., some secret =>
    [.table sinkId "credentials", .table sinkId "auth", credential.place, .table sinkId "tls",
      .trustedCa secret]
  | cloudIam .., none => [credential.place]
  | cloudIam .., some secret =>
    [.table sinkId "credentials", credential.place, .table sinkId "tls", .trustedCa secret]

theorem name_body (settings : Settings) (credential : Credential) :
    (credential.body settings).name = credential.place.name := by
  cases credential with
  | mutualTls secret caBundle =>
    cases caBundle <;> simp [body, Element.ofTemplate, place, Place.name, kind, secret?, Kind.label]
  | _ => simp [body, Element.ofTemplate, place, Place.name, kind, secret?, Kind.label]

theorem tree_body (settings : Settings) (credential : Credential) :
    (credential.body settings).tree = [credential.body settings] := by
  cases credential with
  | mutualTls secret caBundle => cases caBundle <;> rfl
  | _ => rfl

theorem tree_trustedCaBody (settings : Settings) (secret : String) :
    (trustedCaBody settings secret).tree = [trustedCaBody settings secret] := rfl

theorem tree_sinkTable (sinkId title table : String) (content : Element) :
    (sinkTable sinkId title table content).tree =
      sinkTable sinkId title table content :: content.tree := by
  have hembeds : (sinkTable sinkId title table content).embeds = [content] := rfl
  rw [Element.tree_eq_cons, hembeds, List.flatMap_singleton]

theorem tree_tlsTable (sinkId : String) (content : Element) :
    (tlsTable sinkId content).tree = tlsTable sinkId content :: content.tree :=
  tree_sinkTable ..

theorem tree_basicTable (sinkId : String) (content : Element) :
    (basicTable sinkId content).tree = basicTable sinkId content :: content.tree :=
  tree_sinkTable ..

theorem tree_both (settings : Settings) (sinkId secret : String) (auth : Element) :
    (sinkPart.both settings sinkId auth secret).tree =
      sinkPart.both settings sinkId auth secret ::
        (auth.tree ++ (tlsTable sinkId (trustedCaBody settings secret)).tree) := by
  have hembeds : (sinkPart.both settings sinkId auth secret).embeds =
      [auth, tlsTable sinkId (trustedCaBody settings secret)] := rfl
  rw [Element.tree_eq_cons, hembeds]
  simp

theorem name_tlsTable (sinkId : String) (content : Element) :
    (tlsTable sinkId content).name = (Place.table sinkId "tls").name := by
  simp [tlsTable, sinkTable, Element.ofTemplate, Place.name]

theorem name_basicTable (sinkId : String) (content : Element) :
    (basicTable sinkId content).name = (Place.table sinkId "auth").name := by
  simp [basicTable, sinkTable, Element.ofTemplate, Place.name]

theorem name_both (settings : Settings) (sinkId secret : String) (auth : Element) :
    (sinkPart.both settings sinkId auth secret).name = (Place.table sinkId "credentials").name := by
  simp [sinkPart.both, Element.ofTemplate, Place.name, String.append_assoc]

theorem name_trustedCaBody (settings : Settings) (secret : String) :
    (trustedCaBody settings secret).name = (Place.trustedCa secret).name := rfl

/-- What a sink embeds stands at these places, in this order. -/
theorem map_name_sinkPart (settings : Settings) (sinkId : String) (trustedCa : Option String)
    (credential : Credential) :
    (credential.sinkPart settings sinkId trustedCa).tree.map Element.name =
      (credential.places sinkId trustedCa).map Place.name := by
  cases credential <;> cases trustedCa <;>
    simp [sinkPart, places, tree_both, tree_tlsTable, tree_basicTable, tree_body,
      tree_trustedCaBody, name_body, name_tlsTable, name_basicTable, name_both, name_trustedCaBody]

theorem places_nodup (sinkId : String) (trustedCa : Option String) (credential : Credential) :
    (credential.places sinkId trustedCa).Nodup := by
  cases credential <;> cases trustedCa <;> simp [places, place]

/-- What a sink embeds is a part of this sink, or shared by all sinks with the secret. -/
theorem mem_places {sinkId : String} {trustedCa : Option String} {credential : Credential}
    {p : Place} (h : p ∈ credential.places sinkId trustedCa) :
    (∃ suffix, p = .table sinkId suffix) ∨ p = credential.place ∨
      ∃ secret, p = .trustedCa secret := by
  cases credential <;> cases trustedCa <;> simp [places] at h <;> grind

theorem mem_tree_sinkPart {settings : Settings} {sinkId : String} {trustedCa : Option String}
    {credential : Credential} {e : Element}
    (h : e ∈ (credential.sinkPart settings sinkId trustedCa).tree) :
    (∃ suffix, e.name = (Place.table sinkId suffix).name) ∨ e = credential.body settings ∨
      ∃ secret, e = trustedCaBody settings secret := by
  cases credential <;> cases trustedCa <;>
    simp [sinkPart, tree_both, tree_tlsTable, tree_basicTable, tree_body,
      tree_trustedCaBody] at h <;>
    grind [name_tlsTable, name_basicTable, name_both]

theorem plain_place (credential : Credential) : credential.place.Plain := by
  cases credential <;> simp [place, Place.Plain, Place.middle, kind, Kind.label]

/-- What one sink embeds is coherent. -/
theorem coherent_sinkPart (settings : Settings) {sinkId : String} (trustedCa : Option String)
    (credential : Credential) (h : '.' ∉ sinkId.toList) :
    Coherent (credential.sinkPart settings sinkId trustedCa).tree := by
  refine coherent_of_places (map_name_sinkPart settings sinkId trustedCa credential)
    (places_nodup sinkId trustedCa credential) fun p hp => ?_
  rcases mem_places hp with ⟨suffix, rfl⟩ | rfl | ⟨secret, rfl⟩
  · exact h
  · exact plain_place credential
  · simp [Place.Plain, Place.middle]

end Credential

/-! ### What stands at a place -/

theorem NodeLog.id_injective : Function.Injective NodeLog.id := by
  intro a b h
  cases a <;> cases b <;> simp_all [id]

namespace Plan

variable {plan : Plan} {secrets : Secrets} {settings : Settings}

/-- The transforms, by id. -/
def transforms (plan : Plan) : List (String × Element) :=
  (routeId, route) :: Input.all.map (fun input => (input.name, input.marking)) ++
    plan.pipelines.map fun p => (p.id, p.collector)

/-- The element may stand at the place. -/
def Stands (plan : Plan) (secrets : Secrets) (settings : Settings) : Place → Element → Prop
  | .source id, e => ∃ log : NodeLog, log.id = id ∧ log.source settings = e
  | .transform id, e => (id, e) ∈ plan.transforms
  | .sink id, e => ∃ o ∈ plan.outputs.list, ∃ credential, o.id = id ∧
      o.credential secrets = .ok credential ∧ plan.sinkWith secrets settings o credential = e
  | .table id suffix, e => ∃ o ∈ plan.outputs.list, ∃ credential, o.id = id ∧
      o.credential secrets = .ok credential ∧
      e ∈ (credential.sinkPart settings id (o.caSecret? secrets)).tree ∧
      e.name = (Place.table id suffix).name
  | .credential kind secret, e => ∃ (o : Output) (credential : Credential),
      o.credential secrets = .ok credential ∧ credential.kind = kind ∧
      credential.secret? = secret ∧ credential.body settings = e
  | .trustedCa secret, e => Credential.trustedCaBody settings secret = e

namespace Sound

theorem transforms_nodup (h : plan.Sound) : (plan.transforms.map Prod.fst).Nodup := by
  have hmap : plan.transforms.map Prod.fst =
      (routeId :: Input.all.map Input.name) ++ plan.pipelines.map Pipeline.id := by
    simp [transforms, Function.comp_def]
  have hbuiltin : routeId :: Input.all.map Input.name ⊆ builtinIds := by decide
  have hshared : (routeId :: Input.all.map Input.name).Nodup := by decide
  obtain ⟨hown, _, hdisjoint⟩ := List.nodup_append'.1 h.ids_nodup
  rw [hmap, List.nodup_append']
  exact ⟨hshared, (List.nodup_append'.1 hown).1, fun id hid hp =>
    hdisjoint (List.mem_append_left _ hp) (hbuiltin hid)⟩

/-- An id tells which output it belongs to. -/
theorem eq_of_id_eq (h : plan.Sound) {o o' : Output} (ho : o ∈ plan.outputs.list)
    (ho' : o' ∈ plan.outputs.list) (hid : o.id = o'.id) : o = o' := by
  obtain ⟨hown, _⟩ := List.nodup_append'.1 h.ids_nodup
  exact List.inj_on_of_nodup_map (List.nodup_append'.1 hown).2.1 ho ho' hid

theorem point_notMem_componentId (name : String) : '.' ∉ (componentId name).toList := by
  intro hmem
  have hpoint : isIdChar '.' = false := by decide
  rw [isIdChar_of_mem_componentId hmem] at hpoint
  cases hpoint

theorem point_notMem_id (h : plan.Sound) {o : Output} (ho : o ∈ plan.outputs.list) :
    '.' ∉ o.id.toList := by
  rw [h.output_id o ho]
  exact point_notMem_componentId o.name

/-- One element stands at a place. -/
theorem stands_unique (h : plan.Sound) {place : Place} {a b : Element}
    (ha : plan.Stands secrets settings place a) (hb : plan.Stands secrets settings place b) :
    a = b := by
  cases place with
  | source id =>
    obtain ⟨log, rfl, rfl⟩ := ha
    obtain ⟨log', hid, rfl⟩ := hb
    rw [NodeLog.id_injective hid]
  | transform id =>
    exact (Prod.mk.inj (List.inj_on_of_nodup_map h.transforms_nodup ha hb rfl)).2
  | sink id =>
    obtain ⟨o, ho, credential, rfl, hc, rfl⟩ := ha
    obtain ⟨o', ho', credential', hid, hc', rfl⟩ := hb
    obtain rfl := h.eq_of_id_eq ho' ho hid
    rw [hc] at hc'
    cases hc'
    rfl
  | table id suffix =>
    obtain ⟨o, ho, credential, rfl, hc, ha, hname⟩ := ha
    obtain ⟨o', ho', credential', hid, hc', hb, hname'⟩ := hb
    obtain rfl := h.eq_of_id_eq ho' ho hid
    rw [hc] at hc'
    cases hc'
    exact Credential.coherent_sinkPart settings _ _ (h.point_notMem_id ho) a ha b hb
      (hname.trans hname'.symm)
  | credential kind secret =>
    obtain ⟨o, credential, hc, rfl, rfl, rfl⟩ := ha
    obtain ⟨o', credential', hc', hk, hs, rfl⟩ := hb
    rw [Output.credential_unique hc hc' hk.symm hs.symm]
  | trustedCa secret => exact Eq.trans (Eq.symm ha) hb

/-- What stands at a place has the name of the place, and the place is told by it. -/
theorem name_of_stands (h : plan.Sound) {place : Place} {e : Element}
    (he : plan.Stands secrets settings place e) : e.name = place.name ∧ place.Plain := by
  cases place with
  | source id =>
    obtain ⟨log, rfl, rfl⟩ := he
    cases log <;> exact ⟨rfl, by simp [Place.Plain, Place.middle, NodeLog.id]⟩
  | transform id =>
    simp only [Stands, transforms, List.cons_append, List.mem_cons, List.mem_append,
      List.mem_map, Prod.mk.injEq] at he
    rcases he with ⟨rfl, rfl⟩ | ⟨input, _, rfl, rfl⟩ | ⟨p, hp, rfl, rfl⟩
    · exact ⟨rfl, by simp [Place.Plain, Place.middle, routeId]⟩
    · exact ⟨rfl, by cases input <;> simp [Place.Plain, Place.middle, Input.name]⟩
    · refine ⟨rfl, ?_⟩
      rw [Place.Plain, Place.middle, h.pipeline_id p hp]
      exact point_notMem_componentId p.name
  | sink id =>
    obtain ⟨o, ho, credential, rfl, _, rfl⟩ := he
    refine ⟨?_, h.point_notMem_id ho⟩
    unfold sinkWith Output.setTarget
    cases o.type <;> rfl
  | table id suffix =>
    obtain ⟨o, ho, credential, rfl, _, _, hname⟩ := he
    exact ⟨hname, h.point_notMem_id ho⟩
  | credential kind secret =>
    obtain ⟨o, credential, _, rfl, rfl, rfl⟩ := he
    exact ⟨Credential.name_body settings credential, credential.plain_place⟩
  | trustedCa secret =>
    obtain rfl := he
    exact ⟨rfl, by simp [Place.Plain, Place.middle]⟩

/-- **Components do not clash.** Elements that stand somewhere in a configuration are coherent. -/
theorem coherent_of_stands (h : plan.Sound) {es : List Element}
    (hs : ∀ e ∈ es, ∃ place, plan.Stands secrets settings place e) : Coherent es := by
  intro a ha b hb hname
  obtain ⟨p, hp⟩ := hs a ha
  obtain ⟨q, hq⟩ := hs b hb
  obtain ⟨hpn, hpp⟩ := h.name_of_stands hp
  obtain ⟨hqn, hqp⟩ := h.name_of_stands hq
  rw [hpn, hqn] at hname
  obtain rfl := Place.eq_of_name_eq hpp hqp hname
  exact h.stands_unique hp hq

end Sound

/-! ### What pipelines and sinks contribute -/

/-- What stands in the tree of a sink. -/
theorem stands_of_mem_sinkWith {o : Output} {credential : Credential} {e : Element}
    (ho : o ∈ plan.outputs.list) (hc : o.credential secrets = .ok credential)
    (he : e ∈ (plan.sinkWith secrets settings o credential).tree) :
    ∃ place, plan.Stands secrets settings place e := by
  rw [Element.tree_eq_cons, embeds_sinkWith, List.flatMap_singleton, List.mem_cons] at he
  rcases he with rfl | he
  · exact ⟨.sink o.id, o, ho, credential, rfl, hc, rfl⟩
  rcases Credential.mem_tree_sinkPart he with ⟨suffix, hname⟩ | rfl | ⟨secret, rfl⟩
  · exact ⟨.table o.id suffix, o, ho, credential, rfl, hc, he, hname⟩
  · exact ⟨credential.place, o, credential, hc, rfl, rfl, rfl⟩
  · exact ⟨.trustedCa secret, rfl⟩

/-- What stands among the sources of a pipeline. -/
theorem stands_of_mem_sources {p : Pipeline} {root e : Element} (hr : root ∈ p.sources settings)
    (he : e ∈ root.tree) : ∃ place, plan.Stands secrets settings place e := by
  obtain ⟨log, _, rfl⟩ := List.mem_map.1 hr
  have htree : (log.source settings).tree = [log.source settings] := by cases log <;> rfl
  rw [htree, List.mem_singleton] at he
  exact ⟨.source log.id, log, rfl, he.symm⟩

/-- What stands among the transforms of a pipeline. -/
theorem stands_of_mem_transforms {p : Pipeline} {root e : Element} (hp : p ∈ plan.pipelines)
    (hr : root ∈ p.transforms) (he : e ∈ root.tree) :
    ∃ place, plan.Stands secrets settings place e := by
  have hroot : root.tree = [root] ∧ ∃ id, (id, root) ∈ plan.transforms := by
    rcases Pipeline.mem_transforms.1 hr with ⟨_, rfl⟩ | ⟨input, _, rfl⟩ | rfl
    · exact ⟨rfl, routeId, by simp [transforms]⟩
    · have hall : input ∈ Input.all := by cases input <;> simp [Input.all]
      refine ⟨rfl, input.name, List.mem_append_left _ (List.mem_cons_of_mem _ ?_)⟩
      exact List.mem_map.2 ⟨input, hall, rfl⟩
    · exact ⟨rfl, p.id, List.mem_append_right _ (List.mem_map.2 ⟨p, hp, rfl⟩)⟩
  obtain ⟨htree, id, hid⟩ := hroot
  rw [htree, List.mem_singleton] at he
  exact ⟨.transform id, he ▸ hid⟩

end Plan

end LogForwarding
