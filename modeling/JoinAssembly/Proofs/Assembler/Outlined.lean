import JoinAssembly.Proofs.Assembler.Answers
import JoinAssembly.Proofs.Assembler.Trace
import JoinAssembly.Proofs.JoinTree.Outlined

/-!
# Texts of trees and plans

The text of a tree and the plan of an assembler over it have one line for each stream, in the order
of the stored walk from the root.
-/

namespace JoinAssembly.Assembler

variable {ε : Type} {b : TreeBuilder} {t : JoinTree} {a : Assembler ε}

/-- The word for the kind of a node in a plan depends on the tree only. -/
lemma kind_text_eq (ha : a.Ready t) {s : StreamIndex} (hs : s < t.size) :
    ((a.node? s).map (·.kind.text)).getD "" = (t.kindOf s).text := by
  have hlt : s < a.nodes.length := ha.fits.length_eq ▸ hs
  have hn : a.nodes[s]? = some a.nodes[s] := List.getElem?_eq_getElem hlt
  rw [node?, hn, Option.map_some, Option.getD_some, ha.fits.kind_eq hn, JoinNode.kind_ofTree]

variable [DecidableEq ε]

/-- The text of a built tree and the plan of an assembler over it list the stored walk, which has
every stream once. A line is indented by two blanks for each stream that following the parents leads
to, and says what the stream is in the tree or which kind of node it has. -/
theorem texts_in_preorder (hb : b.build = .ok t) (ha : Reachable t a) :
    t.preorder.Perm (List.range t.size) ∧
      (∀ s, (t.ancestors s).Nodup ∧
        ∀ x, x ∈ t.ancestors s ↔ Relation.TransGen (fun c p => t.parent? c = some p) s x) ∧
      t.outlineText = String.join (t.preorder.map fun s =>
        String.join ((t.ancestors s).map fun _ => "  ")
          ++ t.label s ++ " stream=" ++ toString s ++ " " ++ t.roleOf s ++ "\n") ∧
      a.plan = String.join (t.preorder.map fun s =>
        String.join ((t.ancestors s).map fun _ => "  ")
          ++ (t.kindOf s).text ++ " stream=" ++ toString s ++ " (" ++ t.label s ++ ")"
          ++ (if t.isOptional s then " optional" else "") ++ "\n") := by
  have h := TreeBuilder.sound_of_build hb
  have hready := ha.ready
  have hlt : ∀ s ∈ t.preorder, s < t.size := fun s hs =>
    List.mem_range.mp (h.preorder_perm.mem_iff.mp hs)
  refine ⟨h.preorder_perm, fun s => ⟨h.nodup_ancestors s, fun x => h.mem_ancestors⟩, ?_, ?_⟩
  · rw [JoinTree.outlineText, h.outline_eq, List.map_map]
    refine congrArg String.join (List.map_congr_left fun s hs => ?_)
    rw [← indentation_length, ← h.role_eq (hlt s hs)]
    rfl
  · rw [plan, hready.tree_eq, h.outline_eq, List.map_map]
    refine congrArg String.join (List.map_congr_left fun s hs => ?_)
    rw [← indentation_length, ← kind_text_eq hready (hlt s hs), ← hready.tree_eq]
    rfl

theorem sample_texts :
    sampleTree.preorder.map sampleTree.ancestors = [[], [0], [0], [2, 0]] ∧
      sampleTree.outlineText = "#0 stream=0 root\n  #1 stream=1 optional\n"
        ++ "  #2 stream=2 required\n    #3 stream=3 optional\n" ∧
      (sampleAssembler {}).plan = "product stream=0 (#0)\n  leaf stream=1 (#1) optional\n"
        ++ "  optional-branch stream=2 (#2)\n    leaf stream=3 (#3) optional\n" := by
  obtain ⟨-, -, htext, hplan⟩ := texts_in_preorder
    (by decide : sampleBuilder.build = .ok sampleTree) (reachable_sample {})
  refine ⟨by decide, ?_, ?_⟩
  · rw [htext]
    decide
  · rw [hplan]
    decide

end JoinAssembly.Assembler
