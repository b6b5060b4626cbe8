/-
# Where an element stands

The name of an element says where it stands: first the sort of element, then
an id or a kind, and for some sorts one more part, all with points between
them. The last part may be the name of a secret, and hold points of its own;
the parts before it hold none, so that a name belongs to one place only.

Key definitions: `Place`, `Place.name`, `Place.Plain`.
Key theorems: `Place.eq_of_name_eq`, `coherent_of_places`.
-/
import LogForwarding.Credential
import LogForwarding.Proofs.Coherence
import Mathlib.Data.List.Nodup

namespace LogForwarding

/-- How a kind of credential is called in the names of elements. -/
def Credential.Kind.label : Kind → String
  | mutualTls => "tls"
  | basic => "basic"
  | cloudIam => "cloud_iam"
  | anonymous => "none"

/-- The places of elements. -/
inductive Place where
  /-- A source. -/
  | source (id : String)
  /-- A transform. -/
  | transform (id : String)
  /-- A sink. -/
  | sink (id : String)
  /-- A part of a sink. -/
  | table (sinkId suffix : String)
  /-- The lines of a credential. -/
  | credential (kind : Credential.Kind) (secret : Option String)
  /-- The line of trusted certificates. -/
  | trustedCa (secret : String)
  deriving DecidableEq

namespace Place

/-- The name of the element that stands there. -/
def name : Place → String
  | source id => "sources." ++ id
  | transform id => "transforms." ++ id
  | sink id => "sinks." ++ id
  | table sinkId suffix => "sinks." ++ sinkId ++ "." ++ suffix
  | credential kind none => "auth." ++ kind.label
  | credential kind (some secret) => "auth." ++ kind.label ++ "." ++ secret
  | trustedCa secret => "tls.ca." ++ secret

/-- The sort of element. -/
def sort : Place → String
  | source _ => "sources"
  | transform _ => "transforms"
  | sink _ | table .. => "sinks"
  | credential .. => "auth"
  | trustedCa _ => "tls"

/-- The part of the name after the sort. -/
def middle : Place → String
  | source id | transform id | sink id | table id _ => id
  | credential kind _ => kind.label
  | trustedCa _ => "ca"

/-- The last part of the name, where there is a third one. -/
def last? : Place → Option String
  | source _ | transform _ | sink _ => none
  | table _ suffix => some suffix
  | credential _ secret => secret
  | trustedCa secret => some secret

/-- The id in the place has no point. -/
def Plain (p : Place) : Prop := '.' ∉ p.middle.toList

/-- The parts of a name, with points between them. -/
theorem toList_name (p : Place) :
    p.name.toList =
      p.sort.toList ++ '.' :: (p.middle.toList ++ (p.last?.elim [] ('.' :: ·.toList))) := by
  cases p with
  | credential kind secret => cases secret <;> simp [name, sort, middle, last?]
  | _ => simp [name, sort, middle, last?]

theorem label_injective : Function.Injective Credential.Kind.label := by
  intro a b h
  cases a <;> cases b <;> simp_all [Credential.Kind.label]

/-- A place has no other parts. -/
theorem eq_of_parts_eq {p q : Place} (hs : p.sort = q.sort) (hm : p.middle = q.middle)
    (hl : p.last? = q.last?) : p = q := by
  cases p <;> cases q <;> simp_all [sort, middle, last?, label_injective.eq_iff]

/-- The text is empty or begins with a point. -/
def Cut (cs : List Char) : Prop := ∀ c ∈ cs.head?, c = '.'

/-- What stands before the first point, and what after it, can be told from the whole. -/
theorem append_inj_of_cut {a b x y : List Char} (ha : '.' ∉ a) (hb : '.' ∉ b) (hx : Cut x)
    (hy : Cut y) (h : a ++ x = b ++ y) : a = b ∧ x = y := by
  have htake : ∀ {a x : List Char}, '.' ∉ a → Cut x → (a ++ x).takeWhile (· ≠ '.') = a := by
    intro a x ha hx
    have hall : ∀ c ∈ a, decide (c ≠ '.') = true :=
      fun c hc => decide_eq_true fun heq => ha (heq ▸ hc)
    rw [List.takeWhile_append_of_pos hall]
    cases x with
    | nil => simp
    | cons c x => simp [hx c rfl]
  have hab : a = b := by rw [← htake ha hx, h, htake hb hy]
  rw [hab] at h
  exact ⟨hab, List.append_cancel_left h⟩

theorem point_notMem_sort (p : Place) : '.' ∉ p.sort.toList := by
  cases p <;> simp [sort]

/-- **A name belongs to one place.** -/
theorem eq_of_name_eq {p q : Place} (hp : p.Plain) (hq : q.Plain) (h : p.name = q.name) :
    p = q := by
  have hlist := congrArg String.toList h
  rw [toList_name, toList_name] at hlist
  have hcut : ∀ last : Option String, Cut (last.elim [] ('.' :: ·.toList)) := by
    intro last
    cases last <;> simp [Cut]
  obtain ⟨hsort, hrest⟩ := append_inj_of_cut p.point_notMem_sort q.point_notMem_sort
    (by simp [Cut]) (by simp [Cut]) hlist
  obtain ⟨hmiddle, hlast⟩ := append_inj_of_cut hp hq (hcut _) (hcut _) (List.cons.inj hrest).2
  refine eq_of_parts_eq (String.toList_inj.1 hsort) (String.toList_inj.1 hmiddle) ?_
  cases hpl : p.last? <;> cases hql : q.last? <;> simp_all [String.toList_inj]

end Place

/-- Elements at different places are coherent. -/
theorem coherent_of_places {es : List Element} {places : List Place}
    (hn : es.map Element.name = places.map Place.name) (hd : places.Nodup)
    (hp : ∀ p ∈ places, p.Plain) : Coherent es := by
  have hnodup : (es.map Element.name).Nodup := by
    rw [hn]
    exact hd.map_on fun p hpm q hqm h => Place.eq_of_name_eq (hp p hpm) (hp q hqm) h
  exact fun a ha b hb h => List.inj_on_of_nodup_map hnodup ha hb h

end LogForwarding
