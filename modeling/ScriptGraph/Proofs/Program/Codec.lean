import ScriptGraph.Program.Codec
import ScriptGraph.Proofs.Json.Roundtrip

/-!
# Programs are read back

* `Program.values` : the JSON values in a program;
* `Json.Held` : a value as it can stand in a program;
* `Program.expression?_document` : the JSON value of an expression is read as the expression;
* `Program.parse_text` : the JSON text of a program is read as the program.
-/

namespace ScriptGraph

mutual

/-- The JSON values in an expression. -/
def Expression.values : Expression → List Json
  | .value v => [v]
  | .template parts => valuesOfParts parts
  | .member object _ _ => object.values
  | .index object key => object.values ++ key.values
  | .call callee args _ _ => callee.values ++ valuesOfAll args
  | .construct callee args => callee.values ++ valuesOfAll args
  | .function _ _ definitions body => valuesOfDefinitions definitions ++ valuesOfForm body
  | .await value => value.values
  | .assign target value => target.values ++ value.values
  | .resource _ v => [v]
  | _ => []

def valuesOfAll : List Expression → List Json
  | [] => []
  | e :: rest => e.values ++ valuesOfAll rest

def TemplatePart.values : TemplatePart → List Json
  | .text _ => []
  | .expression e => e.values

def valuesOfParts : List TemplatePart → List Json
  | [] => []
  | p :: rest => p.values ++ valuesOfParts rest

def Form.values : Form → List Json
  | .statements list => valuesOfAll list
  | .value e => e.values

def valuesOfForm : Option Form → List Json
  | none => []
  | some form => form.values

def Definition.values : Definition → List Json
  | .mk _ value => value.values

def valuesOfDefinitions : List Definition → List Json
  | [] => []
  | d :: rest => d.values ++ valuesOfDefinitions rest

end

def Program.values (p : Program) : List Json :=
  valuesOfDefinitions p.definitions ++ valuesOfForm p.body

/-- A value as it can stand in a program: its objects are maps in order, its integers have 64 bits,
and the text of a real number is read as the number. -/
structure Json.Held (v : Json) : Prop where
  sorted : v.Sorted
  integers : ∀ i, .integer i ∈ v.numbers → Document.leastInteger ≤ i ∧ i ≤ Document.greatestInteger
  reals : ∀ x, .real x ∈ v.numbers → (Number.real x).ReadsBack

theorem Json.Held.readsBack {v : Json} (h : v.Held) (n : Json.Number) (hn : n ∈ v.numbers) :
    n.ReadsBack := by
  cases n with
  | integer i => exact Json.Number.readsBack_integer (h.integers i hn)
  | real x => exact h.reals x hn

theorem Json.readsBack_of_held {values : List Json} (h : ∀ v ∈ values, v.Held) :
    ∀ n ∈ values.flatMap Json.numbers, n.ReadsBack := fun n hn =>
  have ⟨v, hv, hn⟩ := List.mem_flatMap.1 hn
  (h v hv).readsBack n hn

/-! ## The numbers of a program -/

mutual

theorem Expression.numbers_toJson (e : Expression) :
    e.toJson.numbers = e.values.flatMap Json.numbers := by
  match e with
  | .value _ | .raw _ | .ident _ | .resource _ _ | .placeholder | .use _ =>
    simp [Expression.toJson, Json.numbers, Json.numbersOfEntries, Expression.values]
  | .module _ exported =>
    cases exported <;> simp [Expression.toJson, optionalText, Json.numbers, Json.numbersOfEntries, Expression.values]
  | .template parts =>
    simp [Expression.toJson, Json.numbers, Json.numbersOfEntries, Expression.values, numbers_partsToJson parts]
  | .member object _ _ =>
    simp [Expression.toJson, Json.numbers, Json.numbersOfEntries, Expression.values, object.numbers_toJson]
  | .index object key =>
    simp [Expression.toJson, Json.numbers, Json.numbersOfEntries, Expression.values, object.numbers_toJson,
      key.numbers_toJson]
  | .call callee args _ _ =>
    simp [Expression.toJson, Json.numbers, Json.numbersOfEntries, Expression.values, callee.numbers_toJson,
      numbers_expressionsToJson args]
  | .construct callee args =>
    simp [Expression.toJson, Json.numbers, Json.numbersOfEntries, Expression.values, callee.numbers_toJson,
      numbers_expressionsToJson args]
  | .function name params definitions body =>
    have hparams : Json.numbersOfItems (params.map .string) = [] := by
      induction params with
      | nil => rfl
      | cons p params ih => simpa [Json.numbersOfItems, Json.numbers] using ih
    cases name <;>
      simp [Expression.toJson, optionalText, Json.numbers, Json.numbersOfEntries, Expression.values, hparams,
        numbers_definitionsToJson definitions, numbers_formToJson body]
  | .await value =>
    simp [Expression.toJson, Json.numbers, Json.numbersOfEntries, Expression.values, value.numbers_toJson]
  | .assign target value =>
    simp [Expression.toJson, Json.numbers, Json.numbersOfEntries, Expression.values, target.numbers_toJson,
      value.numbers_toJson]

theorem numbers_expressionsToJson (es : List Expression) :
    Json.numbersOfItems (expressionsToJson es) = (valuesOfAll es).flatMap Json.numbers := by
  match es with
  | [] => rfl
  | e :: rest =>
    simp [expressionsToJson, Json.numbersOfItems, valuesOfAll, e.numbers_toJson,
      numbers_expressionsToJson rest]

theorem numbers_partsToJson (parts : List TemplatePart) :
    Json.numbersOfItems (partsToJson parts) = (valuesOfParts parts).flatMap Json.numbers := by
  match parts with
  | [] => rfl
  | .text _ :: rest =>
    simp [partsToJson, TemplatePart.toJson, TemplatePart.values, Json.numbers, Json.numbersOfItems,
      valuesOfParts, numbers_partsToJson rest]
  | .expression e :: rest =>
    simp [partsToJson, TemplatePart.toJson, TemplatePart.values, Json.numbersOfItems, valuesOfParts,
      e.numbers_toJson, numbers_partsToJson rest]

theorem numbers_formToJson (form : Option Form) :
    (formToJson form).numbers = (valuesOfForm form).flatMap Json.numbers := by
  match form with
  | none => rfl
  | some (.statements list) =>
    simp [formToJson, Form.toJson, Json.numbers, valuesOfForm, Form.values,
      numbers_expressionsToJson list]
  | some (.value e) =>
    simp [formToJson, Form.toJson, valuesOfForm, Form.values, e.numbers_toJson]

theorem numbers_definitionsToJson (definitions : List Definition) :
    Json.numbersOfItems (definitionsToJson definitions) =
      (valuesOfDefinitions definitions).flatMap Json.numbers := by
  match definitions with
  | [] => rfl
  | .mk _ value :: rest =>
    simp [definitionsToJson, Definition.toJson, Json.numbers, Json.numbersOfEntries,
      Json.numbersOfItems, valuesOfDefinitions, Definition.values, value.numbers_toJson,
      numbers_definitionsToJson rest]

end

theorem Program.numbers_toJson (p : Program) :
    p.toJson.numbers = p.values.flatMap Json.numbers := by
  simp [toJson, Json.numbers, Json.numbersOfEntries, values, numbers_definitionsToJson,
    numbers_formToJson]

/-! ## Reading records -/

theorem Json.entryDocuments_eq (entries : List (String × Json)) :
    entryDocuments entries = entries.map fun e => (some e.1, e.2.document) := by
  induction entries with
  | nil => rfl
  | cons e entries ih => exact congrArg ((some e.1, e.2.document) :: ·) ih

/-- A field is found by its key, if no other entry has it. -/
theorem Document.field?_entryDocuments {entries : List (String × Json)}
    (hkeys : (entries.map (·.1)).Nodup) {e : String × Json} (he : e ∈ entries) :
    field? (Json.entryDocuments entries) e.1 = some (some e.2.document) := by
  have hkey : entries.filter (fun a => a.1 == e.1) = [e] := by
    induction entries with
    | nil => cases he
    | cons a entries ih =>
      obtain ⟨hnew, hrest⟩ := List.nodup_cons.1 hkeys
      rcases List.mem_cons.1 he with rfl | he
      · rw [List.filter_cons_of_pos (by simp), List.filter_eq_nil_iff.2]
        exact fun b hb hkey => hnew (List.mem_map.2 ⟨b, hb, eq_of_beq hkey⟩)
      · rw [List.filter_cons_of_neg, ih hrest he]
        exact fun hkey => hnew (List.mem_map.2 ⟨e, he, (eq_of_beq hkey).symm⟩)
  have hfilter : (Json.entryDocuments entries).filter (·.1 == some e.1) =
      [(some e.1, e.2.document)] := by
    rw [Json.entryDocuments_eq, List.filter_map]
    exact congrArg (List.map _) hkey
  rw [field?, hfilter]

/-- The fields of an object with different keys are the values of its entries. -/
theorem Document.record?_document {entries : List (String × Json)} {names : List String}
    (hnames : entries.map (·.1) = names) (hkeys : names.Nodup) :
    record? names (Json.object entries).document =
      some (entries.map fun e => some e.2.document) := by
  subst hnames
  have hsome : (Json.entryDocuments entries).all (·.1.isSome) = true := by
    rw [Json.entryDocuments_eq, List.all_map]
    exact List.all_eq_true.2 fun _ _ => rfl
  have hfields : ∀ es ⊆ entries, (es.map (·.1)).mapM (field? (Json.entryDocuments entries)) =
      some (es.map fun e => some e.2.document) := by
    intro es hes
    induction es with
    | nil => rfl
    | cons e es ih =>
      obtain ⟨he, hes⟩ := List.cons_subset.1 hes
      rw [List.map_cons, List.mapM_cons, field?_entryDocuments hkeys he, ih hes]
      rfl
  rw [Json.document, record?, if_pos hsome, hfields entries (List.Subset.refl entries)]

namespace Json

@[simp] theorem string?_document (s : String) : (string s).document.string? = some s := rfl

@[simp] theorem bool?_document (b : Bool) : (bool b).document.bool? = some b := rfl

@[simp] theorem items?_document (items : List Json) :
    (array items).document.items? = some (documents items) := rfl

end Json

/-! ## Reading -/

namespace Program

/-- An expression is read by its tag from its other fields. -/
theorem expression?_object {fields : List (String × Json)} {tag : String} {depth : Nat}
    {numbered : Bool} (h : "type" ∉ fields.map (·.1)) :
    expression? (depth + 1) numbered (Json.object (("type", .string tag) :: fields)).document =
      ofFields? (expression? depth true) (Json.object fields).document tag := by
  have hne : ∀ f ∈ Json.entryDocuments fields, f.1 ≠ some "type" := by
    intro f hf heq
    rw [Json.entryDocuments_eq] at hf
    obtain ⟨e, he, rfl⟩ := List.mem_map.1 hf
    exact h (List.mem_map.2 ⟨e, he, Option.some.inj heq⟩)
  have hnone : (Json.entryDocuments fields).filter (·.1 == some "type") = [] :=
    List.filter_eq_nil_iff.2 fun f hf => by simpa using hne f hf
  have hall : (Json.entryDocuments fields).filter (·.1 != some "type") =
      Json.entryDocuments fields :=
    List.filter_eq_self.2 fun f hf => by simpa using hne f hf
  simp [Json.document, Json.entryDocuments, expression?, split?, Document.field?, tagName?, hnone,
    hall]

theorem isObject_toJson (e : Expression) : ∃ entries, e.toJson.document = .object entries := by
  cases e <;> exact ⟨_, rfl⟩

/-- What is written for an expression cannot be read as a list. -/
theorem listOf?_document {α : Type} (read : Document → Option α) (e : Expression) :
    listOf? read e.toJson.document = none := by
  obtain ⟨entries, heq⟩ := isObject_toJson e
  simp [listOf?, heq, Document.items?]

theorem form?_value (read : Document → Option Expression) (e : Expression) :
    form? read e.toJson.document = (read e.toJson.document).map .value := by
  simp [form?, listOf?_document]

theorem part?_expression (read : Document → Option Expression) (e : Expression) :
    part? read e.toJson.document = (read e.toJson.document).map .expression := by
  obtain ⟨entries, heq⟩ := isObject_toJson e
  simp [part?, heq]

theorem nullable_optionalText (s : Option String) :
    Document.nullable Document.string? (optionalText s).document = some s := by
  cases s <;> rfl

theorem mapM_string?_documents (texts : List String) :
    (Json.documents (texts.map .string)).mapM Document.string? = some texts := by
  induction texts with
  | nil => rfl
  | cons t texts ih => simp [Json.documents, Json.document, Document.string?, ih]

theorem valueOf?_document {v : Json} (h : v.Held) (hd : v.depth ≤ Document.depthLimit) :
    valueOf? v.document = some v := by
  rw [valueOf?, v.toJson?_document h.readsBack hd, v.sorted_eq_self h.sorted]

theorem nullable_form (read : Document → Option Form) (form : Form) :
    Document.nullable read form.toJson.document = (read form.toJson.document).map some := by
  cases form with
  | statements list => rfl
  | value e =>
    obtain ⟨entries, heq⟩ := isObject_toJson e
    simp [Form.toJson, heq, Document.nullable]

mutual

/-- What is written for an expression is read as the expression. -/
theorem expression?_document (e : Expression) {k : Nat} {n : Bool}
    (hv : ∀ v ∈ e.values, v.Held) (hd : e.toJson.depth < k) (hk : k ≤ Document.depthLimit + 1) :
    expression? k n e.toJson.document = some e := by
  obtain ⟨k, rfl⟩ : ∃ d, k = d + 1 := ⟨k - 1, by omega⟩
  match e with
  | .value v =>
    simp only [Expression.toJson, Json.depth, Json.depthOfEntries] at hd
    have hread := valueOf?_document (hv v (by simp [Expression.values])) (by omega)
    simp [Expression.toJson, expression?_object, ofFields?, Document.record?_document, hread]
  | .raw _ | .ident _ | .use _ =>
    simp [Expression.toJson, expression?_object, ofFields?, Document.record?_document]
  | .placeholder =>
    rw [Expression.toJson, expression?_object (by simp)]
    rfl
  | .template parts =>
    simp only [Expression.toJson, Json.depth, Json.depthOfEntries] at hd
    have hparts := mapM_part?_documents parts (k := k) hv (by omega) (by omega)
    simp [Expression.toJson, expression?_object, ofFields?, Document.record?_document, listOf?,
      hparts]
  | .member object property optional =>
    simp only [Expression.toJson, Json.depth, Json.depthOfEntries] at hd
    have hobject := expression?_document object (k := k) (n := true) hv (by omega)
      (by omega)
    simp [Expression.toJson, expression?_object, ofFields?, Document.record?_document,
      Document.fieldOr, hobject]
  | .index object key =>
    simp only [Expression.toJson, Json.depth, Json.depthOfEntries] at hd
    have hobject := expression?_document object (k := k) (n := true)
      (fun v h => hv v (List.mem_append_left _ h)) (by omega) (by omega)
    have hkey := expression?_document key (k := k) (n := true)
      (fun v h => hv v (List.mem_append_right _ h)) (by omega) (by omega)
    simp [Expression.toJson, expression?_object, ofFields?, Document.record?_document, hobject,
      hkey]
  | .call callee args optional pure =>
    simp only [Expression.toJson, Json.depth, Json.depthOfEntries] at hd
    have hcallee := expression?_document callee (k := k) (n := true)
      (fun v h => hv v (List.mem_append_left _ h)) (by omega) (by omega)
    have hargs := mapM_expression?_documents args (k := k)
      (fun v h => hv v (List.mem_append_right _ h)) (by omega) (by omega)
    simp [Expression.toJson, expression?_object, ofFields?, Document.record?_document,
      Document.fieldOr, listOf?, hcallee, hargs]
  | .construct callee args =>
    simp only [Expression.toJson, Json.depth, Json.depthOfEntries] at hd
    have hcallee := expression?_document callee (k := k) (n := true)
      (fun v h => hv v (List.mem_append_left _ h)) (by omega) (by omega)
    have hargs := mapM_expression?_documents args (k := k)
      (fun v h => hv v (List.mem_append_right _ h)) (by omega) (by omega)
    simp [Expression.toJson, expression?_object, ofFields?, Document.record?_document,
      Document.fieldOr, listOf?, hcallee, hargs]
  | .function name params definitions body =>
    simp only [Expression.toJson, Json.depth, Json.depthOfEntries] at hd
    have hdefinitions := mapM_definition?_documents definitions (k := k)
      (fun v h => hv v (List.mem_append_left _ h)) (by omega) (by omega)
    have hbody : Document.nullable (form? (expression? k true)) (formToJson body).document =
        some body := by
      match body with
      | none => rfl
      | some form =>
        have hform := form?_document form (k := k)
          (fun v h => hv v (List.mem_append_right _ h)) (by simp only [formToJson] at hd; omega)
          (by omega)
        rw [formToJson, nullable_form, hform]
        rfl
    simp [Expression.toJson, expression?_object, ofFields?, Document.record?_document,
      Document.fieldOr, nullable_optionalText, listOf?, mapM_string?_documents, hdefinitions,
      hbody]
  | .await value =>
    simp only [Expression.toJson, Json.depth, Json.depthOfEntries] at hd
    have hvalue := expression?_document value (k := k) (n := true) hv (by omega)
      (by omega)
    simp [Expression.toJson, expression?_object, ofFields?, Document.record?_document, hvalue]
  | .assign target value =>
    simp only [Expression.toJson, Json.depth, Json.depthOfEntries] at hd
    have htarget := expression?_document target (k := k) (n := true)
      (fun v h => hv v (List.mem_append_left _ h)) (by omega) (by omega)
    have hvalue := expression?_document value (k := k) (n := true)
      (fun v h => hv v (List.mem_append_right _ h)) (by omega) (by omega)
    simp [Expression.toJson, expression?_object, ofFields?, Document.record?_document, htarget,
      hvalue]
  | .module address exported =>
    simp [Expression.toJson, expression?_object, ofFields?, Document.record?_document,
      Document.fieldOr, nullable_optionalText]
  | .resource key v =>
    simp only [Expression.toJson, Json.depth, Json.depthOfEntries] at hd
    have hread := valueOf?_document (hv v (by simp [Expression.values])) (by omega)
    simp [Expression.toJson, expression?_object, ofFields?, Document.record?_document,
      Document.fieldOr, hread]

theorem mapM_expression?_documents (es : List Expression) {k : Nat}
    (hv : ∀ v ∈ valuesOfAll es, v.Held) (hd : Json.depthOfItems (expressionsToJson es) < k)
    (hk : k ≤ Document.depthLimit + 1) :
    (Json.documents (expressionsToJson es)).mapM (expression? k true) = some es := by
  match es with
  | [] => rfl
  | e :: rest =>
    simp only [expressionsToJson, Json.depthOfItems] at hd
    have he := expression?_document e (k := k) (n := true)
      (fun v h => hv v (List.mem_append_left _ h)) (by omega) hk
    have hrest := mapM_expression?_documents rest (k := k)
      (fun v h => hv v (List.mem_append_right _ h)) (by omega) hk
    simp [expressionsToJson, Json.documents, he, hrest]

theorem mapM_part?_documents (parts : List TemplatePart) {k : Nat}
    (hv : ∀ v ∈ valuesOfParts parts, v.Held) (hd : Json.depthOfItems (partsToJson parts) < k)
    (hk : k ≤ Document.depthLimit + 1) :
    (Json.documents (partsToJson parts)).mapM (part? (expression? k true)) = some parts := by
  match parts with
  | [] => rfl
  | .text t :: rest =>
    simp only [partsToJson, Json.depthOfItems] at hd
    have hrest := mapM_part?_documents rest (k := k) hv (by omega) hk
    simp [partsToJson, TemplatePart.toJson, Json.documents, Json.document, part?, hrest]
  | .expression e :: rest =>
    simp only [partsToJson, TemplatePart.toJson, Json.depthOfItems] at hd
    have he := expression?_document e (k := k) (n := true)
      (fun v h => hv v (List.mem_append_left _ h)) (by omega) hk
    have hrest := mapM_part?_documents rest (k := k)
      (fun v h => hv v (List.mem_append_right _ h)) (by omega) hk
    simp [partsToJson, TemplatePart.toJson, Json.documents, part?_expression, he, hrest]

theorem form?_document (form : Form) {k : Nat} (hv : ∀ v ∈ form.values, v.Held)
    (hd : form.toJson.depth < k) (hk : k ≤ Document.depthLimit + 1) :
    form? (expression? k true) form.toJson.document = some form := by
  match form with
  | .statements list =>
    simp only [Form.toJson, Json.depth] at hd
    have hlist := mapM_expression?_documents list (k := k) hv (by omega) hk
    simp [Form.toJson, Json.document, form?, listOf?, Document.items?, hlist]
  | .value e =>
    have he := expression?_document e (k := k) (n := true) hv hd hk
    simp [Form.toJson, form?_value, he]

theorem mapM_definition?_documents (definitions : List Definition) {k : Nat}
    (hv : ∀ v ∈ valuesOfDefinitions definitions, v.Held)
    (hd : Json.depthOfItems (definitionsToJson definitions) ≤ k)
    (hk : k ≤ Document.depthLimit + 1) :
    (Json.documents (definitionsToJson definitions)).mapM (definition? (expression? k true)) =
      some definitions := by
  match definitions with
  | [] => rfl
  | .mk name value :: rest =>
    simp only [definitionsToJson, Definition.toJson, Json.depth, Json.depthOfEntries, Json.depthOfItems] at hd
    have hvalue := expression?_document value (k := k) (n := true)
      (fun v h => hv v (List.mem_append_left _ h)) (by omega) hk
    have hrest := mapM_definition?_documents rest (k := k)
      (fun v h => hv v (List.mem_append_right _ h)) (by omega) hk
    simp [definitionsToJson, Definition.toJson, Json.documents, definition?,
      Document.record?_document, hvalue, hrest]

end

/-! ## Whole programs -/

theorem soundExpression?_document {e : Expression} (hv : ∀ v ∈ e.values, v.Held) {k : Nat}
    (hd : e.toJson.depth ≤ k) (hk : k ≤ Document.depthLimit) :
    soundExpression? k false e.toJson.document = some e := by
  have hnumbers : ∀ n ∈ e.toJson.numbers, n.ReadsBack := by
    rw [e.numbers_toJson]
    exact Json.readsBack_of_held hv
  rw [soundExpression?, if_pos (by rw [Document.sound, Json.toJson?_document _ hnumbers hd]; rfl)]
  exact expression?_document e hv (by omega) (by omega)

theorem mapM_outerDefinition?_documents (definitions : List Definition)
    (hv : ∀ v ∈ valuesOfDefinitions definitions, v.Held)
    (hd : Json.depthOfItems (definitionsToJson definitions) ≤ Document.depthLimit - 2) :
    (Json.documents (definitionsToJson definitions)).mapM outerDefinition? = some definitions := by
  induction definitions with
  | nil => rfl
  | cons definition rest ih =>
    obtain ⟨name, value⟩ := definition
    simp only [definitionsToJson, Definition.toJson, Json.depth, Json.depthOfEntries,
      Json.depthOfItems] at hd
    have hvalue := soundExpression?_document (e := value) (k := Document.depthLimit - 3)
      (fun v h => hv v (List.mem_append_left _ h)) (by omega) (by omega)
    have hrest := ih (fun v h => hv v (List.mem_append_right _ h)) (by omega)
    simp [definitionsToJson, Definition.toJson, Json.documents, outerDefinition?, definition?,
      Document.record?_document, hvalue, hrest]

theorem outerForm?_document {form : Form} (hv : ∀ v ∈ form.values, v.Held)
    (hd : form.toJson.depth ≤ Document.depthLimit - 1) :
    outerForm? form.toJson.document = some form := by
  have hnumbers : ∀ n ∈ form.toJson.numbers, n.ReadsBack := by
    rw [show form.toJson.numbers = _ from numbers_formToJson (some form)]
    exact Json.readsBack_of_held hv
  rw [outerForm?, if_pos (by rw [Document.sound, Json.toJson?_document _ hnumbers hd]; rfl)]
  have hpos : 0 < Document.depthLimit := by decide
  exact form?_document form hv (by omega) (by omega)

/-- **The JSON text of a program is read as the program**, whatever expressions, parts, bodies and
values are in it, as long as it nests no deeper than texts may. -/
theorem parse_text (p : Program) (held : ∀ v ∈ p.values, v.Held)
    (nests : p.toJson.depth ≤ Document.depthLimit) : Program.parse p.text = .ok p := by
  have hnumbers : ∀ n ∈ p.toJson.numbers, n.ReadsBack := by
    rw [p.numbers_toJson]
    exact Json.readsBack_of_held held
  obtain ⟨definitions, body⟩ := p
  simp only [toJson, Json.depth, Json.depthOfEntries] at nests
  have hdefinitions := mapM_outerDefinition?_documents definitions
    (fun v h => held v (List.mem_append_left _ h)) (by omega)
  have hbody : Document.nullable outerForm? (formToJson body).document = some body := by
    cases body with
    | none => rfl
    | some form =>
      rw [formToJson, nullable_form, outerForm?_document
        (fun v h => held v (List.mem_append_right _ h)) (by simp only [formToJson] at nests; omega)]
      rfl
  have hread : ofDocument? (toJson ⟨definitions, body⟩).document = some ⟨definitions, body⟩ := by
    simp [toJson, ofDocument?, Document.record?_document, Document.fieldOr, listOf?, hdefinitions,
      hbody]
  rw [parse, text, Json.parse_document hnumbers, Option.bind_some, hread]

/-! ## An instance -/

/-- The number 0.5. -/
def half : Finite64 := ⟨false, Finite64.leastSignificand, -53⟩

theorem half_readsBack : (Json.Number.real half).ReadsBack :=
  ⟨⟨false, 5, -1, false⟩, by decide +kernel, by decide +kernel⟩

/-- A function whose body is one expression calls one whose body is a list, with a value in which
arrays, objects and numbers stand. -/
def nestedExample : Program where
  definitions := [
    .mk "f" (.function (some "f") ["x"] [.mk "y" (.await (.use "x"))]
      (some (.statements [.assign .placeholder (.template [.text "a", .expression (.use "y")])]))),
    .mk "g" (.function none [] []
      (some (.value (.call (.use "f")
        [.value (.object [("k", .array [.number (.real half), .number (.integer (-1))]),
          ("l", .null)])] true false))))]
  body := some (.statements [.construct (.use "g") [], .module "m" none, .resource "r" (.bool true),
    .function none [] [] none])

theorem held_nestedExample : ∀ v ∈ nestedExample.values, v.Held := by
  intro v hv
  have hv : v = .object [("k", .array [.number (.real half), .number (.integer (-1))]),
      ("l", .null)] ∨ v = .bool true := by
    simpa [nestedExample, values, valuesOfDefinitions, valuesOfForm, valuesOfAll, valuesOfParts,
      Definition.values, Expression.values, TemplatePart.values, Form.values] using hv
  rcases hv with rfl | rfl
  · refine ⟨⟨by decide, ⟨trivial, trivial, trivial⟩, trivial, trivial⟩, fun i hi => ?_, fun x hx => ?_⟩
    · obtain rfl : i = -1 := by
        simpa [Json.numbers, Json.numbersOfEntries, Json.numbersOfItems] using hi
      decide
    · obtain rfl : x = half := by
        simpa [Json.numbers, Json.numbersOfEntries, Json.numbersOfItems] using hx
      exact half_readsBack
  · exact ⟨trivial, nofun, nofun⟩

/-- `nestedExample` is written with nine levels and read back. -/
theorem parse_text_nestedExample : nestedExample.toJson.depth ≤ Document.depthLimit ∧
    Program.parse nestedExample.text = .ok nestedExample :=
  have nests : nestedExample.toJson.depth ≤ Document.depthLimit := by decide
  ⟨nests, parse_text nestedExample held_nestedExample nests⟩

end Program

end ScriptGraph
