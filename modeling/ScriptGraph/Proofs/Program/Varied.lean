import ScriptGraph.Proofs.Program.Lockstep

/-!
# Programs that vary

* `Routine` : a function or a program as it is written, with the names that it binds;
* `Expression.Varied`, `Routine.Varied`, `Program.Varied` : expressions, functions and programs that
  differ in the names and definitions only that a variation allows;
* `Expression.Varied.similar`, `Routine.Varied.similar` : their core forms are similar;
* `Program.compile_of_varied` : so a program compiles to the same script when it varies;
* `Expression.usedNames`, `Expression.varied_self` : an expression may stay as it is if the names that
  are used in it may.
-/

namespace ScriptGraph

def Definition.value : Definition → Expression
  | .mk _ value => value

/-- A function or a program: its names, its definitions and what follows them. -/
structure Routine where
  name : Option String
  params : List String
  definitions : List Definition
  body : Option Form

def Program.routine (p : Program) : Routine := ⟨none, [], p.definitions, p.body⟩

def Routine.heading (r : Routine) : Heading := ⟨r.name, r.params, r.definitions.map Definition.name⟩

def Routine.core (r : Routine) : CoreFunction :=
  .mk r.name r.params (coreDefinitions r.definitions) (returnsForm r.body) (coreForm r.body)

/-- There is neither a name in the expression, nor another expression. -/
def Expression.IsPlain : Expression → Prop
  | .value _ | .raw _ | .ident _ | .module _ _ | .resource _ _ | .placeholder => True
  | _ => False

mutual

/-- Expressions that differ in the names and definitions only that a variation allows. -/
inductive Expression.Varied (V : Variation) : V.Scope → Expression → Expression → Prop
  | plain (s : V.Scope) {x : Expression} (h : x.IsPlain) : Expression.Varied V s x x
  | template {s : V.Scope} {ps ps' : List TemplatePart} (h : VariedParts V s ps ps') :
    Expression.Varied V s (.template ps) (.template ps')
  | member {s : V.Scope} {x x' : Expression} (h : Expression.Varied V s x x') (property : String)
    (optional : Bool) :
    Expression.Varied V s (.member x property optional) (.member x' property optional)
  | index {s : V.Scope} {x x' k k' : Expression} (h : Expression.Varied V s x x')
    (hk : Expression.Varied V s k k') : Expression.Varied V s (.index x k) (.index x' k')
  | call {s : V.Scope} {x x' : Expression} {xs xs' : List Expression}
    (h : Expression.Varied V s x x') (hs : VariedAll V s xs xs') (optional pure : Bool) :
    Expression.Varied V s (.call x xs optional pure) (.call x' xs' optional pure)
  | construct {s : V.Scope} {x x' : Expression} {xs xs' : List Expression}
    (h : Expression.Varied V s x x') (hs : VariedAll V s xs xs') :
    Expression.Varied V s (.construct x xs) (.construct x' xs')
  | function {s : V.Scope} {name name' : Option String} {params params' : List String}
    {ds ds' : List Definition} {body body' : Option Form}
    (h : Routine.Varied V s ⟨name, params, ds, body⟩ ⟨name', params', ds', body'⟩) :
    Expression.Varied V s (.function name params ds body) (.function name' params' ds' body')
  | await {s : V.Scope} {x x' : Expression} (h : Expression.Varied V s x x') :
    Expression.Varied V s (.await x) (.await x')
  | assign {s : V.Scope} {t t' x x' : Expression} (ht : Expression.Varied V s t t')
    (h : Expression.Varied V s x x') : Expression.Varied V s (.assign t x) (.assign t' x')
  | use {s : V.Scope} {name name' : String} (h : V.use s name name') :
    Expression.Varied V s (.use name) (.use name')

inductive VariedAll (V : Variation) : V.Scope → List Expression → List Expression → Prop
  | nil (s : V.Scope) : VariedAll V s [] []
  | cons {s : V.Scope} {x x' : Expression} {xs xs' : List Expression}
    (h : Expression.Varied V s x x') (hs : VariedAll V s xs xs') :
    VariedAll V s (x :: xs) (x' :: xs')

inductive VariedParts (V : Variation) : V.Scope → List TemplatePart → List TemplatePart → Prop
  | nil (s : V.Scope) : VariedParts V s [] []
  | text {s : V.Scope} {ps ps' : List TemplatePart} (t : String) (hs : VariedParts V s ps ps') :
    VariedParts V s (.text t :: ps) (.text t :: ps')
  | expression {s : V.Scope} {x x' : Expression} {ps ps' : List TemplatePart}
    (h : Expression.Varied V s x x') (hs : VariedParts V s ps ps') :
    VariedParts V s (.expression x :: ps) (.expression x' :: ps')

inductive VariedForm (V : Variation) : V.Scope → Option Form → Option Form → Prop
  | none (s : V.Scope) : VariedForm V s none none
  | statements {s : V.Scope} {xs xs' : List Expression} (h : VariedAll V s xs xs') :
    VariedForm V s (some (.statements xs)) (some (.statements xs'))
  | value {s : V.Scope} {x x' : Expression} (h : Expression.Varied V s x x') :
    VariedForm V s (some (.value x)) (some (.value x'))

/-- The definitions from `i` on have their counterparts where `m` says. -/
inductive VariedDefinitions (V : Variation) : V.Scope → (Nat → Nat) → List Definition → Nat →
    List Definition → Prop
  | nil (s : V.Scope) (m : Nat → Nat) (ds' : List Definition) (i : Nat) :
    VariedDefinitions V s m ds' i []
  | cons {s : V.Scope} {m : Nat → Nat} {ds' : List Definition} {i : Nat} {name name' : String}
    {x x' : Expression} {ds : List Definition} (hd : ds'[m i]? = some (.mk name' x'))
    (h : Expression.Varied V s x x') (hs : VariedDefinitions V s m ds' (i + 1) ds) :
    VariedDefinitions V s m ds' i (.mk name x :: ds)

/-- Functions, or programs, that differ so. In the value of a definition without a counterpart, the
names are bound: such a value can be lowered. -/
inductive Routine.Varied (V : Variation) : V.Scope → Routine → Routine → Prop
  | mk {s t : V.Scope} {r r' : Routine} {m : Nat → Nat} (henter : V.enter s r.heading r'.heading m t)
    (hdefinitions : VariedDefinitions V t m r'.definitions 0 r.definitions)
    (hadded : ∀ j d, r'.definitions[j]? = some d → (∀ i < r.definitions.length, m i ≠ j) →
      ∀ name ∈ d.value.core.uses, V.bound t name)
    (hbody : VariedForm V t r.body r'.body) : Routine.Varied V s r r'

end

/-- Programs that differ so. -/
def Program.Varied (V : Variation) (p q : Program) : Prop :=
  p.routine.Varied V V.top q.routine

/-! ## Core forms -/

theorem coreDefinitions_eq_map (ds : List Definition) :
    coreDefinitions ds = ds.map fun d => .mk d.name d.value.core := by
  induction ds with
  | nil => rfl
  | cons d ds ih =>
    obtain ⟨name, x⟩ := d
    exact congrArg (CoreDefinition.mk name x.core :: ·) ih

theorem Routine.heading_core (r : Routine) : r.core.heading = r.heading :=
  congrArg (Heading.mk r.name r.params) (coreDefinitions_names r.definitions)

section Similar

variable {V : Variation} {s : V.Scope}

theorem SimilarParts.append {ps ps' qs qs' : List CorePart} (h : SimilarParts V s ps ps')
    (h' : SimilarParts V s qs qs') : SimilarParts V s (ps ++ qs) (ps' ++ qs') := by
  induction ps generalizing ps' with
  | nil =>
    cases h
    exact h'
  | cons p ps ih =>
    cases h with
    | text t hs => exact .text t (ih hs)
    | node hx hs => exact .node hx (ih hs)

theorem SimilarAll.separatedByCommas {xs xs' : List Core} (h : SimilarAll V s xs xs') :
    SimilarParts V s (separatedByCommas xs) (separatedByCommas xs') := by
  induction xs generalizing xs' with
  | nil =>
    cases h
    exact .nil s
  | cons x xs ih =>
    cases h with
    | cons hx hs =>
      have hrest := ih hs
      cases hs with
      | nil => exact .node hx (.nil s)
      | cons => exact .node hx (.text "," hrest)

theorem Expression.IsPlain.similar {x : Expression} (h : x.IsPlain) :
    x.core.Similar V s x.core := by
  cases x with
  | value v =>
    rw [Expression.core]
    split <;> exact .leaf s _ _
  | raw | ident | resource | placeholder => exact .leaf s _ _
  | module address exported =>
    cases exported with
    | none => exact .leaf s _ _
    | some exported =>
      exact .template (.node (.leaf s _ _) (.text _ (.nil s))) false false
  | _ => exact h.elim

mutual

/-- The core forms of expressions that vary are similar. -/
theorem Expression.Varied.similar {V : Variation} : ∀ {s : V.Scope} {x x' : Expression},
    x.Varied V s x' → x.core.Similar V s x'.core
  | _, _, _, .plain _ h => h.similar
  | _, _, _, .template h => .template h.similar false false
  | _, _, _, .member h property optional =>
    .template (.node h.similar (.text (Build.memberAccess property optional) (.nil _))) false
      optional
  | _, _, _, .index h hk =>
    .template (.node h.similar (.text "[" (.node hk.similar (.text "]" (.nil _))))) false false
  | _, _, _, .call h hs optional pure => .call h.similar hs.similar (callStyle optional pure)
  | _, _, _, .construct h hs =>
    .template ((SimilarParts.text "new " (.node h.similar (.text "(" (.nil _)))).append
      hs.similar.separatedByCommas |>.append (.text ")" (.nil _))) false false
  | _, _, _, .function h => .function h.similar
  | _, _, _, .await h => .template (.text "await " (.node h.similar (.nil _))) true false
  | _, _, _, .assign ht h =>
    .template (.node ht.similar (.text "=" (.node h.similar (.nil _)))) false false
  | _, _, _, .use h => .use h

theorem VariedAll.similar {V : Variation} : ∀ {s : V.Scope} {xs xs' : List Expression},
    VariedAll V s xs xs' → SimilarAll V s (cores xs) (cores xs')
  | _, _, _, .nil s => .nil s
  | _, _, _, .cons h hs => .cons h.similar hs.similar

theorem VariedParts.similar {V : Variation} : ∀ {s : V.Scope} {ps ps' : List TemplatePart},
    VariedParts V s ps ps' → SimilarParts V s (coreParts ps) (coreParts ps')
  | _, _, _, .nil s => .nil s
  | _, _, _, .text t hs => .text t hs.similar
  | _, _, _, .expression h hs => .node h.similar hs.similar

theorem VariedForm.similar {V : Variation} : ∀ {s : V.Scope} {body body' : Option Form},
    VariedForm V s body body' →
    returnsForm body' = returnsForm body ∧ SimilarAll V s (coreForm body) (coreForm body')
  | _, _, _, .none s => ⟨rfl, .nil s⟩
  | _, _, _, .statements h => ⟨rfl, h.similar⟩
  | _, _, _, .value h => ⟨rfl, .cons h.similar (.nil _)⟩

theorem VariedDefinitions.similar {V : Variation} : ∀ {s : V.Scope} {m : Nat → Nat}
    {ds' : List Definition} {i : Nat} {ds : List Definition}, VariedDefinitions V s m ds' i ds →
    SimilarDefinitions V s m (coreDefinitions ds') i (coreDefinitions ds)
  | _, _, _, _, _, .nil s m _ i => .nil s m _ i
  | _, _, _, _, _, .cons hd h hs =>
    .cons (by rw [coreDefinitions_eq_map, List.getElem?_map, hd]; rfl) h.similar hs.similar

theorem Routine.Varied.similar {V : Variation} : ∀ {s : V.Scope} {r r' : Routine},
    r.Varied V s r' → r.core.Similar V s r'.core
  | _, r, r', .mk henter hdefinitions hadded hbody => by
    refine .mk (by rwa [r.heading_core, r'.heading_core]) hbody.similar.1 hdefinitions.similar
      (fun j d hd hj => ?_) hbody.similar.2
    have hlength : r.core.definitions.length = r.definitions.length := by
      show (coreDefinitions r.definitions).length = _
      rw [coreDefinitions_eq_map, List.length_map]
    have hd : (coreDefinitions r'.definitions)[j]? = some d := hd
    rw [coreDefinitions_eq_map, List.getElem?_map] at hd
    obtain ⟨d', hd', rfl⟩ := Option.map_eq_some_iff.1 hd
    exact hadded j d' hd' (hlength ▸ hj)

end

end Similar

/-- **A program that compiles compiles to the same script when it varies.** -/
theorem Program.compile_of_varied {V : Variation} {p q : Program} (h : p.Varied V q) {o : Options}
    {compiled : Compiled} (hok : (p.compile o).1 = .ok compiled) :
    (q.compile o).1 = .ok compiled :=
  compile_of_similar h.similar hok

/-! ## Expressions that stay as they are -/

/-- All definitions have counterparts where `m` says. -/
theorem VariedDefinitions.of_forall {V : Variation} {s : V.Scope} {m : Nat → Nat}
    {ds' : List Definition} {i : Nat} {ds : List Definition} (h : ∀ k d, ds[k]? = some d →
      ∃ d', ds'[m (i + k)]? = some d' ∧ d.value.Varied V s d'.value) :
    VariedDefinitions V s m ds' i ds := by
  induction ds generalizing i with
  | nil => exact .nil s m ds' i
  | cons d ds ih =>
    obtain ⟨name, x⟩ := d
    obtain ⟨⟨name', x'⟩, hd', hx⟩ := h 0 (.mk name x) rfl
    refine .cons hd' hx (ih fun k d hd => ?_)
    rw [Nat.add_right_comm]
    exact h (k + 1) d hd

mutual

/-- The names that are used in an expression, also those in the bodies of its functions. -/
def Expression.usedNames : Expression → List String
  | .use name => [name]
  | .template parts => usedNamesInParts parts
  | .member object _ _ => object.usedNames
  | .index object key => object.usedNames ++ key.usedNames
  | .call callee args _ _ => callee.usedNames ++ usedNamesInAll args
  | .construct callee args => callee.usedNames ++ usedNamesInAll args
  | .function _ _ definitions body => usedNamesInDefinitions definitions ++ usedNamesInForm body
  | .await value => value.usedNames
  | .assign target value => target.usedNames ++ value.usedNames
  | _ => []

def usedNamesInAll : List Expression → List String
  | [] => []
  | x :: rest => x.usedNames ++ usedNamesInAll rest

def usedNamesInParts : List TemplatePart → List String
  | [] => []
  | .text _ :: rest => usedNamesInParts rest
  | .expression x :: rest => x.usedNames ++ usedNamesInParts rest

def usedNamesInForm : Option Form → List String
  | none => []
  | some (.statements list) => usedNamesInAll list
  | some (.value x) => x.usedNames

def usedNamesInDefinitions : List Definition → List String
  | [] => []
  | .mk _ x :: rest => x.usedNames ++ usedNamesInDefinitions rest

end

def Routine.usedNames (r : Routine) : List String :=
  usedNamesInDefinitions r.definitions ++ usedNamesInForm r.body

/-- Some names may stand for themselves, and functions may stay as they are. -/
structure Variation.Keeps (V : Variation) (P : V.Scope → String → Prop) : Prop where
  use : ∀ s name, P s name → V.use s name name
  enter : ∀ s h, ∃ t, V.enter s h h id t ∧ ∀ name, P s name → P t name

section Keeps

variable {V : Variation} {P : V.Scope → String → Prop}

mutual

/-- An expression may stay as it is if the names that are used in it may. -/
theorem Expression.varied_self (hV : V.Keeps P) : ∀ (x : Expression) (s : V.Scope),
    (∀ name ∈ x.usedNames, P s name) → x.Varied V s x
  | .value _, s, _ | .raw _, s, _ | .ident _, s, _ | .module _ _, s, _ | .resource _ _, s, _
  | .placeholder, s, _ => .plain s trivial
  | .use name, s, h => .use (hV.use s name (h name (List.mem_singleton_self _)))
  | .template parts, s, h => .template (variedParts_self hV parts s h)
  | .member object property optional, s, h => .member (object.varied_self hV s h) property optional
  | .index object key, s, h => by
    obtain ⟨ho, hk⟩ := List.forall_mem_append.1 h
    exact .index (object.varied_self hV s ho) (key.varied_self hV s hk)
  | .call callee args optional pure, s, h => by
    obtain ⟨hc, ha⟩ := List.forall_mem_append.1 h
    exact .call (callee.varied_self hV s hc) (variedAll_self hV args s ha) optional pure
  | .construct callee args, s, h => by
    obtain ⟨hc, ha⟩ := List.forall_mem_append.1 h
    exact .construct (callee.varied_self hV s hc) (variedAll_self hV args s ha)
  | .function name params definitions body, s, h => by
    obtain ⟨hd, hb⟩ := List.forall_mem_append.1 h
    obtain ⟨t, henter, ht⟩ := hV.enter s ⟨name, params, definitions.map Definition.name⟩
    refine .function (.mk henter (.of_forall fun k d hk => ⟨d, ?_, ?_⟩) (fun j d hj hne => ?_) ?_)
    · rwa [Nat.zero_add]
    · exact variedDefinitions_self hV definitions t (fun name hname => ht name (hd name hname)) k d
        hk
    · exact absurd rfl (hne j (List.getElem?_eq_some_iff.1 hj).1)
    · exact variedForm_self hV body t fun name hname => ht name (hb name hname)
  | .await value, s, h => .await (value.varied_self hV s h)
  | .assign target value, s, h => by
    obtain ⟨ht, hv⟩ := List.forall_mem_append.1 h
    exact .assign (target.varied_self hV s ht) (value.varied_self hV s hv)

theorem variedAll_self (hV : V.Keeps P) : ∀ (xs : List Expression) (s : V.Scope),
    (∀ name ∈ usedNamesInAll xs, P s name) → VariedAll V s xs xs
  | [], s, _ => .nil s
  | x :: xs, s, h => by
    obtain ⟨hx, hxs⟩ := List.forall_mem_append.1 h
    exact .cons (x.varied_self hV s hx) (variedAll_self hV xs s hxs)

theorem variedParts_self (hV : V.Keeps P) : ∀ (ps : List TemplatePart) (s : V.Scope),
    (∀ name ∈ usedNamesInParts ps, P s name) → VariedParts V s ps ps
  | [], s, _ => .nil s
  | .text t :: ps, s, h => .text t (variedParts_self hV ps s h)
  | .expression x :: ps, s, h => by
    obtain ⟨hx, hps⟩ := List.forall_mem_append.1 h
    exact .expression (x.varied_self hV s hx) (variedParts_self hV ps s hps)

theorem variedForm_self (hV : V.Keeps P) : ∀ (body : Option Form) (s : V.Scope),
    (∀ name ∈ usedNamesInForm body, P s name) → VariedForm V s body body
  | none, s, _ => .none s
  | some (.statements list), s, h => .statements (variedAll_self hV list s h)
  | some (.value x), s, h => .value (x.varied_self hV s h)

theorem variedDefinitions_self (hV : V.Keeps P) : ∀ (ds : List Definition) (s : V.Scope),
    (∀ name ∈ usedNamesInDefinitions ds, P s name) →
      ∀ (k : Nat) (d : Definition), ds[k]? = some d → d.value.Varied V s d.value
  | .mk _ x :: ds, s, h, k, d, hk => by
    obtain ⟨hx, hds⟩ := List.forall_mem_append.1 h
    cases k with
    | zero =>
      cases hk
      exact x.varied_self hV s hx
    | succ k => exact variedDefinitions_self hV ds s hds k d hk

end

theorem Routine.varied_self (hV : V.Keeps P) (r : Routine) (s : V.Scope)
    (h : ∀ name ∈ r.usedNames, P s name) : r.Varied V s r := by
  cases (Expression.function r.name r.params r.definitions r.body).varied_self hV s h with
  | function h => exact h
  | plain _ h => exact h.elim

end Keeps

end ScriptGraph
