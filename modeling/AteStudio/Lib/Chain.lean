import AteStudio.Lib.Waves

/-!
# Chains of dependencies

Every node but the first names the one before it, or one that does not come before it.
-/

namespace AteStudio.Chain

open Relation List
open Waves (Before)

variable {κ : Type}

abbrev Node (κ : Type) := κ × List κ

def ids (nodes : List (Node κ)) : List κ := nodes.map Prod.fst

@[simp] theorem ids_cons (node : Node κ) (rest : List (Node κ)) : ids (node :: rest) = node.1 :: ids rest := rfl

def edges (nodes : List (Node κ)) : List (κ × κ) := nodes.flatMap fun node => node.2.map (·, node.1)

/-- Nothing before the first node, and the node before any other. -/
def Names : Option κ → List κ → Node κ → Prop
  | none, _, node => node.2 = []
  | some prev, later, node => ∃ d, node.2 = [d] ∧ (d = prev ∨ d ∈ later)

/-- Every node names the one before it, or one of those from itself on, `later` included. -/
def Forward (later : List κ) : Option κ → List (Node κ) → Prop
  | _, [] => True
  | prev, node :: rest => Names prev (ids (node :: rest) ++ later) node ∧ Forward later (some node.1) rest

def Linked : Option κ → List (Node κ) → Prop
  | _, [] => True
  | prev, node :: rest => node.2 = prev.toList ∧ Linked (some node.1) rest

variable (prev : Option κ)

theorem names_toList (later : List κ) (x : κ) : Names prev later (x, prev.toList) := by
  cases prev with
  | none => rfl
  | some d => exact ⟨d, rfl, .inl rfl⟩

variable {prev : Option κ}

theorem Names.mono {later later' : List κ} (h : later ⊆ later') {node : Node κ}
    (hn : Names prev later node) : Names prev later' node := by
  cases prev with
  | none => exact hn
  | some prev =>
    obtain ⟨d, hd, hd'⟩ := hn
    exact ⟨d, hd, hd'.imp_right (@h d)⟩

variable {nodes : List (Node κ)}

theorem Forward.mono {later later' : List κ} (h : later ⊆ later')
    (hf : Forward later prev nodes) : Forward later' prev nodes := by
  induction nodes generalizing prev with
  | nil => trivial
  | cons node rest ih =>
    have hsub : ids (node :: rest) ++ later ⊆ ids (node :: rest) ++ later' := by
      intro x hx
      exact mem_append.mpr ((mem_append.mp hx).imp_right (@h x))
    exact ⟨hf.1.mono hsub, ih hf.2⟩

/-! ## Cycles -/

theorem edges_cons (node : Node κ) (rest : List (Node κ)) :
    edges (node :: rest) = node.2.map (·, node.1) ++ edges rest := by
  simp [edges]

theorem edges_subset_cons (node : Node κ) (rest : List (Node κ)) : edges rest ⊆ edges (node :: rest) := by
  rw [edges_cons]
  exact subset_append_right _ _

theorem reaches_mono {es es' : List (κ × κ)} (h : es ⊆ es') {a b : κ} (hab : TransGen (fun a b => (a, b) ∈ es) a b) :
    TransGen (fun a b => (a, b) ∈ es') a b :=
  TransGen.mono (fun _ _ he => h he) _ _ hab

theorem acyclic_mono {es es' : List (κ × κ)} (h : es ⊆ es') (hac : Kahn.Acyclic es') : Kahn.Acyclic es :=
  fun x hx => hac x (reaches_mono h hx)

theorem Linked.reaches {prev : κ} (h : Linked (some prev) nodes) {x : κ} (hx : x ∈ ids nodes) :
    TransGen (fun a b => (a, b) ∈ edges nodes) prev x := by
  induction nodes generalizing prev with
  | nil => simp [ids] at hx
  | cons node rest ih =>
    have hstep : TransGen (fun a b => (a, b) ∈ edges (node :: rest)) prev node.1 := by
      refine .single ?_
      rw [edges_cons, h.1]
      simp
    rcases mem_cons.mp hx with rfl | hx
    · exact hstep
    · exact hstep.trans (reaches_mono (edges_subset_cons node rest) (ih h.2 hx))

theorem Forward.linked (h : Forward [] prev nodes) (hac : Kahn.Acyclic (edges nodes)) : Linked prev nodes := by
  induction nodes generalizing prev with
  | nil => trivial
  | cons node rest ih =>
    have hrest := ih h.2 (acyclic_mono (edges_subset_cons node rest) hac)
    refine ⟨?_, hrest⟩
    cases prev with
    | none => exact h.1
    | some prev =>
      obtain ⟨d, hd, rfl | hlater⟩ := h.1
      · exact hd
      · have hedge : (d, node.1) ∈ edges (node :: rest) := by
          rw [edges_cons, hd]
          simp
        rw [append_nil] at hlater
        rcases mem_cons.mp hlater with rfl | hd'
        · exact absurd (.single hedge) (hac node.1)
        · have hpath := reaches_mono (edges_subset_cons node rest) (hrest.reaches hd')
          exact absurd (hpath.tail hedge) (hac node.1)

theorem Linked.nodup (h : Linked prev nodes) (hac : Kahn.Acyclic (edges nodes)) : (ids nodes).Nodup := by
  induction nodes generalizing prev with
  | nil => exact nodup_nil
  | cons node rest ih =>
    refine nodup_cons.mpr ⟨fun hmem => ?_, ih h.2 (acyclic_mono (edges_subset_cons node rest) hac)⟩
    exact hac node.1 (reaches_mono (edges_subset_cons node rest) (h.2.reaches hmem))

theorem Linked.before (h : Linked prev nodes) {e : κ × κ}
    (he : e ∈ edges nodes) : Before (prev.toList ++ ids nodes) e.1 e.2 := by
  induction nodes generalizing prev with
  | nil => simp [edges] at he
  | cons node rest ih =>
    rw [edges_cons, h.1] at he
    rcases mem_append.mp he with he | he
    · obtain ⟨d, hd, rfl⟩ := mem_map.mp he
      exact ⟨prev.toList, ids (node :: rest), rfl, hd, mem_cons_self⟩
    · exact (ih h.2 he).append_left prev.toList

theorem Linked.acyclic [DecidableEq κ] (h : Linked none nodes) (hnodup : (ids nodes).Nodup) :
    Kahn.Acyclic (edges nodes) :=
  Kahn.acyclic_of_rank (ids nodes).idxOf fun _ he => (h.before he).idxOf_lt hnodup

theorem Forward.acyclic_iff [DecidableEq κ] (h : Forward [] none nodes) :
    Kahn.Acyclic (edges nodes) ↔ Linked none nodes ∧ (ids nodes).Nodup :=
  ⟨fun hac => ⟨h.linked hac, (h.linked hac).nodup hac⟩, fun ⟨hlinked, hnodup⟩ => hlinked.acyclic hnodup⟩

/-! ## Parts -/

def lastOf (prev : Option κ) (nodes : List (Node κ)) : Option κ := ((ids nodes).getLast?).or prev

theorem lastOf_cons (node : Node κ) (rest : List (Node κ)) :
    lastOf prev (node :: rest) = lastOf (some node.1) rest := by
  cases rest with
  | nil => rfl
  | cons second rest =>
    simp only [lastOf, ids, map_cons, getLast?_cons_cons]
    cases hlast : (second.1 :: rest.map Prod.fst).getLast? with
    | none => simp at hlast
    | some last => rfl

theorem exists_lastOf (prev : κ) (nodes : List (Node κ)) :
    ∃ x ∈ prev :: ids nodes, lastOf (some prev) nodes = some x := by
  induction nodes generalizing prev with
  | nil => exact ⟨prev, by simp, rfl⟩
  | cons node rest ih =>
    obtain ⟨x, hx, hlast⟩ := ih node.1
    exact ⟨x, mem_cons_of_mem _ hx, by rw [lastOf_cons, hlast]⟩

theorem lastOf_append (nodes nodes' : List (Node κ)) :
    lastOf prev (nodes ++ nodes') = lastOf (lastOf prev nodes) nodes' := by
  induction nodes generalizing prev with
  | nil => simp [lastOf, ids]
  | cons node rest ih => rw [cons_append, lastOf_cons, lastOf_cons, ih]

theorem forward_append (later : List κ) (prev : Option κ) (nodes nodes' : List (Node κ)) :
    Forward later prev (nodes ++ nodes') ↔
      Forward (ids nodes' ++ later) prev nodes ∧ Forward later (lastOf prev nodes) nodes' := by
  induction nodes generalizing prev with
  | nil => simp [Forward, lastOf, ids]
  | cons node rest ih =>
    simp only [cons_append, Forward, ih, lastOf_cons, and_assoc]
    simp [ids]

theorem linked_append (nodes nodes' : List (Node κ)) :
    Linked prev (nodes ++ nodes') ↔ Linked prev nodes ∧ Linked (lastOf prev nodes) nodes' := by
  induction nodes generalizing prev with
  | nil => simp [Linked, lastOf, ids]
  | cons node rest ih => simp only [cons_append, Linked, ih, lastOf_cons, and_assoc]

end AteStudio.Chain
