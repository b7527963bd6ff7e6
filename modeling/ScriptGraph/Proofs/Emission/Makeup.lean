import ScriptGraph.Proofs.Emission.Spelling

/-!
# What written fragments are made of

* `Layout.MadeOf` : a fragment is made of what is written for the parts of its node, or for the body
  of its function;
* `Layout.Closed.madeOf_output` : all fragments of a script in which nodes are written out are, and
  what is written for the parts has every property that passes to a node from its parts;
* `Layout.WritesOut`, `Layout.closed_writesOut` : what is not declared is written out where it is used;
* `Layout.use_text` : so is a given text.
-/

namespace ScriptGraph.Layout

variable {l : Layout} {P : NodeId → Position → Fragment → Prop} {e : NodeId} {pos : Position}
  {f : Fragment}

/-- The fragment is made of what is written for the parts of its node, or for the body of its
function, which has the property where it is not a name. -/
def MadeOf (l : Layout) (P : NodeId → Position → Fragment → Prop) : Fragment → Prop
  | .expansion e enclosed pieces => l.graph.isFunction e = false ∧
    ∀ n, l.graph.node? e = some n → ∃ pos spelled, enclosed = encloses n pos ∧
      List.Forall₂ (l.PartAs P) (positioned pos (l.shape e n).1) spelled ∧
      pieces = spelled ++ (l.shape e n).2
  | .lambda f _ _ _ b => ∃ body, l.graph.body? f = some body ∧ l.BlockAs P (some f) body b
  | _ => False

/-- Two properties that pass to a node do so together. -/
theorem Closed.and {Q : NodeId → Position → Fragment → Prop} (hP : l.Closed P) (hQ : l.Closed Q) :
    l.Closed fun e pos f => P e pos f ∧ Q e pos f where
  parameter e pos name hp hn := ⟨hP.parameter e pos name hp hn, hQ.parameter e pos name hp hn⟩
  function f pos params body b hf hparams hbody hb :=
    ⟨hP.function f pos params body b hf hparams hbody (hb.imp fun _ _ _ h => h.1),
      hQ.function f pos params body b hf hparams hbody (hb.imp fun _ _ _ h => h.2)⟩
  inline e n pos pieces hn hf hp hs hpieces :=
    ⟨hP.inline e n pos pieces hn hf hp hs (hpieces.imp fun _ _ h => h.imp fun _ _ _ h => h.1),
      hQ.inline e n pos pieces hn hf hp hs (hpieces.imp fun _ _ h => h.imp fun _ _ _ h => h.2)⟩

/-- Everything within what is written for a node is made of what has the property. -/
theorem Closed.throughout (hP : l.Closed P) :
    l.Closed fun e pos f => P e pos f ∧ Throughout (l.MadeOf P) e pos f where
  parameter e pos name hp hn := ⟨hP.parameter e pos name hp hn, nofun⟩
  function f pos params body b hf hparams hbody hb := by
    have hown : l.BlockAs P (some f) body b := hb.imp fun _ _ _ h => h.1
    refine ⟨hP.function f pos params body b hf hparams hbody hown, ?_⟩
    exact List.forall_mem_cons.2 ⟨⟨body, hbody, hown⟩, throughout_block (hb.imp fun _ _ _ h => h.2)⟩
  inline e n pos pieces hn hf hp hs hpieces := by
    have hown : List.Forall₂ (l.PartAs P) (positioned pos (l.shape e n).1) pieces :=
      hpieces.imp fun _ _ h => h.imp fun _ _ _ h => h.1
    refine ⟨hP.inline e n pos pieces hn hf hp hs hown, List.forall_mem_cons.2 ⟨⟨hf, ?_⟩, ?_⟩⟩
    · intro n' hn'
      obtain rfl : n = n' := Option.some.inj (hn.symm.trans hn')
      exact ⟨pos, pieces, rfl, hown, rfl⟩
    · rw [writtenInAll_append, l.written_of_shape, List.append_nil]
      exact throughout_parts (hpieces.imp fun _ _ h => h.imp fun _ _ _ h => h.2)

/-- **What is written out in a script is made of what has a property**, if the property passes from
the nodes within a text to the node whose text it is. -/
theorem Closed.madeOf_output (hP : l.Closed P) {mode : CompileMode} {body : Body} {o : Output}
    (ho : l.output mode body = .ok o) : ∀ w ∈ o.written, l.MadeOf P w :=
  throughout_output ((hP.throughout.of_output ho).imp fun _ _ _ h => h.2)

/-- What is written for a node is no name, unless the node is a parameter. -/
def WritesOut (l : Layout) (e : NodeId) (_ : Position) (f : Fragment) : Prop :=
  f.node? = some e ∧ (l.graph.isParameter e = false → f ∈ f.written) ∧
    ∀ w ∈ f.written, l.SpellsNode w

theorem closed_writesOut : l.Closed l.WritesOut where
  parameter _ _ _ hp _ := ⟨rfl, fun hnot => absurd hp (hnot ▸ Bool.false_ne_true), nofun⟩
  function f pos params body b hf hparams hbody hb :=
    ⟨rfl, fun _ => List.mem_cons_self, (closed_spellsWithin.function f pos params body b hf hparams
      hbody (hb.imp fun _ _ _ h => ⟨h.1, h.2.2⟩)).2⟩
  inline e n pos pieces hn hf hp hs hpieces :=
    ⟨rfl, fun _ => List.mem_cons_self, (closed_spellsWithin.inline e n pos pieces hn hf hp hs
      (hpieces.imp fun _ _ h => h.imp fun _ _ _ h => ⟨h.1, h.2.2⟩)).2⟩

/-- A given text that is not declared is written as it is wherever it is used. -/
theorem use_text (h : l.UseAs l.WritesOut e pos f) {code : String}
    (hk : l.graph.kindOf? e = some (.text code)) (hd : l.analysis.isDeclared e = false) :
    f = .expansion e false [.text code] := by
  have hp : l.graph.isParameter e = false := by rw [Graph.isParameter, hk]
  rw [UseAs, hd] at h
  obtain ⟨hnode, hmem, hspells⟩ := h
  exact (hspells f (hmem hp)).of_text hnode hk

end ScriptGraph.Layout
