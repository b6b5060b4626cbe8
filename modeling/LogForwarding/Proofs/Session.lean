/-
# A registry in use

A registry starts empty and is used by one request after the other: elements
are inserted, looked up, and turned into texts and documents. An insertion that
succeeds is the only request that changes the registry, and it only adds to it.
So after any run of requests the registered elements are those whose insertion
succeeded, and whatever a request was granted it is granted again.

Key definitions: `Registry.Request`, `Registry.Answer`, `Registry.perform`,
`Registry.run`.
Key theorems: `Registry.extends_run`, `Registry.Holds.run`,
`Registry.perform_again`, `Registry.run_lasting`.
-/
import LogForwarding.Proofs.Expansion.Locality
import Mathlib.Data.Finset.Card

namespace LogForwarding

namespace Registry

/-- What can be asked of a registry. -/
inductive Request where
  /-- Add the element. -/
  | insert (e : Element)
  /-- Look up the element of the name. -/
  | get (name : String)
  /-- Make its text. -/
  | text (name : String)
  /-- Make the document of the elements of these names. -/
  | document (names : List String)
  deriving DecidableEq

/-- What is answered. -/
inductive Answer where
  /-- The element has been added, or was there before. -/
  | done
  /-- The element of the name. -/
  | found (e : Element)
  /-- No element has the name. -/
  | absent
  /-- The text or document. -/
  | written (text : String)
  /-- Why the request fails. -/
  | refused (fault : Fault)
  deriving DecidableEq

/-- The request got what it asked for. -/
def Answer.Grants : Answer → Prop
  | done | found _ | written _ => True
  | absent | refused _ => False

/-- The answer to a request for an element. -/
def Answer.ofElement : Option Element → Answer
  | some e => found e
  | none => absent

/-- The answer to a request for a text or a document. -/
def Answer.ofText : Except Fault String → Answer
  | .ok text => written text
  | .error fault => refused fault

/-- The answer to a request, and the registry after it. -/
def perform (r : Registry) : Request → Answer × Registry
  | .insert e =>
    match r.insert e with
    | .ok r' => (.done, r')
    | .error fault => (.refused fault, r)
  | .get name => (.ofElement (r.get? name), r)
  | .text name => (.ofText (r.text name), r)
  | .document names => (.ofText (r.document names), r)

/-- Requests that are made one after the other, each with its answer, and the registry after
them. -/
def run (r : Registry) : List Request → List (Request × Answer) × Registry
  | [] => ([], r)
  | request :: rest =>
    let (answer, r) := r.perform request
    let (answered, r) := r.run rest
    ((request, answer) :: answered, r)

/-- The elements whose insertion succeeded. -/
def inserted (answered : List (Request × Answer)) : List Element :=
  answered.filterMap fun
    | (.insert e, .done) => some e
    | _ => none

variable {r s : Registry}

/-! ### One request -/

theorem Answer.exists_of_grants_ofElement {found : Option Element}
    (h : (Answer.ofElement found).Grants) : ∃ e, found = some e := by
  cases found with
  | some e => exact ⟨e, rfl⟩
  | none => exact h.elim

theorem Answer.exists_of_grants_ofText {outcome : Except Fault String}
    (h : (Answer.ofText outcome).Grants) : ∃ text, outcome = .ok text := by
  cases outcome with
  | ok text => exact ⟨text, rfl⟩
  | error fault => exact h.elim

theorem perform_insert_of_ok {r' : Registry} {e : Element} (h : r.insert e = .ok r') :
    r.perform (.insert e) = (.done, r') := by
  simp [perform, h]

theorem perform_insert_of_error {e : Element} {fault : Fault} (h : r.insert e = .error fault) :
    r.perform (.insert e) = (.refused fault, r) := by
  simp [perform, h]

/-- A request only adds to the registry. -/
theorem extends_perform (r : Registry) (request : Request) :
    r.Extends (r.perform request).2 := by
  cases request with
  | insert e =>
    cases h : r.insert e with
    | ok r' =>
      rw [perform_insert_of_ok h]
      exact .of_insert h
    | error fault =>
      rw [perform_insert_of_error h]
      exact .refl r
  | get name => exact .refl r
  | text name => exact .refl r
  | document names => exact .refl r

/-- What is registered after a request is what was registered before it, and the element that it
inserted. -/
theorem Holds.perform {es : List Element} (h : r.Holds es) (request : Request) :
    (r.perform request).2.Holds (es ++ inserted [(request, (r.perform request).1)]) := by
  have hsame : r.Holds (es ++ []) := by simpa using h
  cases request with
  | insert e =>
    cases hi : r.insert e with
    | ok r' =>
      rw [perform_insert_of_ok hi]
      exact h.insert hi
    | error fault =>
      rw [perform_insert_of_error hi]
      exact hsame
  | get name => exact hsame
  | text name => exact hsame
  | document names => exact hsame

/-- What a request was granted it is granted again, when only additions lie between. -/
theorem perform_again {request : Request} (h : (r.perform request).2.Extends s)
    (hg : (r.perform request).1.Grants) : (s.perform request).1 = (r.perform request).1 := by
  cases request with
  | insert e =>
    cases hi : r.insert e with
    | ok r' =>
      rw [perform_insert_of_ok hi] at h ⊢
      have hkept : s.get? e.name = some e := h e.name e (by rw [get?_insert hi, if_pos rfl])
      obtain ⟨s', hs⟩ := exists_insert_iff.2 fun kept hk => Option.some.inj (hk.symm.trans hkept)
      rw [perform_insert_of_ok hs]
    | error fault =>
      rw [perform_insert_of_error hi] at hg
      exact hg.elim
  | get name =>
    obtain ⟨e, he⟩ := Answer.exists_of_grants_ofElement hg
    show Answer.ofElement (s.get? name) = Answer.ofElement (r.get? name)
    rw [he, h name e he]
  | text name =>
    obtain ⟨text, ht⟩ := Answer.exists_of_grants_ofText hg
    show Answer.ofText (s.text name) = Answer.ofText (r.text name)
    rw [ht, h.text_eq_ok ht]
  | document names =>
    obtain ⟨text, hd⟩ := Answer.exists_of_grants_ofText hg
    show Answer.ofText (s.document names) = Answer.ofText (r.document names)
    rw [hd, h.document_eq_ok hd]

/-- An insertion is refused only for another element of the name, and changes nothing then. -/
theorem perform_insert_refused {e : Element} {fault : Fault}
    (h : (r.perform (.insert e)).1 = .refused fault) :
    ((∃ kept, r.get? e.name = some kept ∧ kept ≠ e) ∧ fault = .nameCollision e.name) ∧
      (r.perform (.insert e)).2 = r := by
  cases hi : r.insert e with
  | ok r' =>
    rw [perform_insert_of_ok hi] at h
    cases h
  | error fault' =>
    rw [perform_insert_of_error hi] at h ⊢
    cases h
    exact ⟨insert_eq_error_iff.1 hi, rfl⟩

/-! ### Runs of requests -/

theorem run_append (r : Registry) (before later : List Request) :
    r.run (before ++ later) =
      ((r.run before).1 ++ ((r.run before).2.run later).1, ((r.run before).2.run later).2) := by
  induction before generalizing r with
  | nil => rfl
  | cons request rest ih => simp [run, ih]

/-- A run only adds to the registry. -/
theorem extends_run (r : Registry) (requests : List Request) : r.Extends (r.run requests).2 := by
  induction requests generalizing r with
  | nil => exact .refl r
  | cons request rest ih => exact (r.extends_perform request).trans (ih _)

/-- What is registered after a run is what was registered before it, and the elements that it
inserted. -/
theorem Holds.run {es : List Element} (h : r.Holds es) (requests : List Request) :
    (r.run requests).2.Holds (es ++ inserted (r.run requests).1) := by
  induction requests generalizing r es with
  | nil => simpa [Registry.run, inserted] using h
  | cons request rest ih =>
    have hrest := ih (h.perform request)
    rwa [List.append_assoc, inserted, inserted, ← List.filterMap_append] at hrest

/-- What a request of a run was granted it is granted again after the run. -/
theorem perform_again_of_mem_run {requests : List Request} {request : Request} {answer : Answer}
    (hm : (request, answer) ∈ (r.run requests).1) (hs : (r.run requests).2.Extends s)
    (hg : answer.Grants) : (s.perform request).1 = answer := by
  induction requests generalizing r with
  | nil => cases hm
  | cons first rest ih =>
    rcases List.mem_cons.1 hm with heq | hm
    · cases heq
      exact perform_again ((extends_run _ rest).trans hs) hg
    · exact ih hm hs

/-- There are as many registered elements as there are names of elements. -/
theorem Holds.size_eq {es : List Element} (h : r.Holds es) :
    r.size = (es.map Element.name).toFinset.card := by
  have hnames : r.names.toFinset = (es.map Element.name).toFinset := by
    ext name
    rw [List.mem_toFinset, List.mem_toFinset, mem_names, Option.isSome_iff_exists, List.mem_map]
    constructor
    · rintro ⟨e, he⟩
      have hname := name_of_get? he
      exact ⟨e, (h e).2 (hname ▸ he), hname⟩
    · rintro ⟨e, he, rfl⟩
      exact ⟨e, (h e).1 he⟩
  calc r.size
    _ = r.names.length := Std.ExtTreeMap.length_keys.symm
    _ = r.names.toFinset.card := (List.toFinset_card_of_nodup Std.ExtTreeMap.nodup_keys).symm
    _ = (es.map Element.name).toFinset.card := by rw [hnames]

/-- **What is granted lasts.** After any requests to an empty registry, an element is found under a
name if and only if it has this name and its insertion succeeded, and there are as many elements
as there are such names. An insertion that is refused changes nothing. And a request that was
granted an element, a text or a document is granted the same after any further requests. -/
theorem run_lasting (before later : List Request) :
    (∀ name e, (run ∅ before).2.get? name = some e ↔
      e.name = name ∧ e ∈ inserted (run ∅ before).1) ∧
    (run ∅ before).2.size = ((inserted (run ∅ before).1).map Element.name).toFinset.card ∧
    (∀ e fault, ((run ∅ before).2.perform (.insert e)).1 = .refused fault →
      ((∃ kept, (run ∅ before).2.get? e.name = some kept ∧ kept ≠ e) ∧
        fault = .nameCollision e.name) ∧
      ((run ∅ before).2.perform (.insert e)).2 = (run ∅ before).2) ∧
    ∀ request answer, (request, answer) ∈ (run ∅ before).1 → answer.Grants →
      ((run ∅ (before ++ later)).2.perform request).1 = answer := by
  have hholds : (run ∅ before).2.Holds (inserted (run ∅ before).1) := holds_empty.run before
  refine ⟨fun name e => ?_, hholds.size_eq, fun e fault h => perform_insert_refused h,
    fun request answer hm hg => ?_⟩
  · rw [hholds e]
    constructor
    · intro he
      have hname := name_of_get? he
      exact ⟨hname, hname ▸ he⟩
    · rintro ⟨rfl, he⟩
      exact he
  · rw [run_append]
    exact perform_again_of_mem_run hm (extends_run _ later) hg

/-- What is not granted may be granted later. -/
example :
    (run ∅ [.get "a", .insert (Element.ofTemplate "a" "x"), .insert (Element.ofTemplate "a" "y"),
      .get "a"]).1.map Prod.snd =
        [.absent, .done, .refused (.nameCollision "a"), .found (Element.ofTemplate "a" "x")] := by
  decide +kernel

end Registry

end LogForwarding
