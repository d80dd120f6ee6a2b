import Rnx.Store.Generations
import Rnx.Store.Evolution

/-!
# Every operation ages the handles

On a sane store every operation keeps live handles live or spends them, and keeps the spent ones
spent, whether it returns or fails.  Admissions and retirements are the steps to look at; no other
step touches the marks.
-/

namespace Rnx

open ErrState

namespace Store

variable {s t : Store} {h k : Handle}

/-! ## Admission -/

instance : Rewrites Steady where
  quiet hslots hfree := ⟨by unfold marks; rw [hslots], hfree⟩
  modify s i _ _ := steady_modify s i _

instance : Rewrites Aging where
  quiet hslots hfree := (Quiet.quiet (R := Steady) hslots hfree).ages
  modify s i _ _ := (steady_modify s i _).ages

/-- An admission reuses a free slot or takes a fresh one; a failed one leaves the marks as they
were. -/
lemma admitPayload_aging (p : Payload) : Within Aging (admitPayload p) := by
  unfold admitPayload
  apply Within.bind (.read _)
  intro a
  apply Within.bind (reserveWork_evolves _ _)
  intro _
  apply Within.bind reserveSlot_evolves
  intro _
  apply Within.of_wp
  intro s
  rw [wp_get_bind]
  split
  · rename_i i rest hfree
    split
    · -- The children are retained first: the marks are those of `s` when the slot is occupied.
      apply wp_seq ((retainChildren_evolves [] p.children).after (refl_of Steady s))
      · intro e t ht
        exact ht.ages
      · intro _ t ht
        rw [wp_update_bind]
        intro hs
        apply (ht.ages hs).trans
        apply ages_reuse (ht.ages hs).sane (ht.2.trans hfree)
        · exact marks_publish t i p a
        · rfl
    · exact refl_of Aging s
  · dsimp only
    apply wp_ite
    · intro _
      exact refl_of Aging s
    · intro _
      rw [wp_update_bind]
      -- The fresh slot is vacant until the children are retained, and is given back if they are not.
      have hfresh : marks { s with slots := s.slots ++ [⟨1, none⟩] } = s.marks ++ [(1, false)] := by
        simp [marks]
      have hfree : ({ s with slots := s.slots ++ [⟨1, none⟩] } : Store).free = s.free := rfl
      generalize ({ s with slots := s.slots ++ [⟨1, none⟩] } : Store) = u at hfresh hfree ⊢
      have hretain : (attempt (retainChildren [] p.children)).wp (fun _ t => Steady u t)
          (fun _ _ => False) u := wp_attempt.2 ((retainChildren_evolves [] p.children).wp u)
      apply wp_seq hretain
      · intro e t ht
        exact ht.elim
      · intro r t ht
        cases r with
        | error e =>
            rw [wp_update_bind]
            apply Steady.ages
            constructor
            · show marks { t with slots := t.slots.dropLast } = s.marks
              have hmarks : t.marks = s.marks ++ [(1, false)] := ht.1.trans hfresh
              unfold marks at hmarks ⊢
              rw [List.map_dropLast, hmarks, List.dropLast_concat]
            · exact ht.2.trans hfree
        | ok x =>
            rw [wp_update_bind]
            intro hs
            apply ages_fresh (g := 1) hs
            · show (t.publish _ p a).marks = _
              rw [marks_publish, ht.1, hfresh, show s.slots.length = s.marks.length by simp [marks]]
              rw [List.modify_eq_set_getElem?]
              simp
            · exact (free_publish t _ p a).trans (ht.2.trans hfree)
            · decide

instance : Evolves Aging where
  admits p _ := admitPayload_aging p
  retire {s _ e} hh hs :=
    have hvacate := ages_vacate hs hh
    hvacate.trans ((steady_unlink _ e).ages hvacate.sane)

instance : LeasesText Aging where
  lease _ _ _ hst := trans_of Aging hst (steady_modify _ _ _).ages

/-! ## Sorting -/

lemma steady_modifyTwo (s : Store) (h k : Handle) (f g : Entry → Entry) :
    Steady s (s.modifyTwo h k f g) :=
  trans_of Steady (steady_modify s _ _) (steady_modify _ _ _)

lemma setPayload_aging {h : Handle} {p : Payload} : Within Aging (setPayload h p) :=
  .update fun s => (steady_modify s h.slot _).ages

lemma sortBegin_aging (v : Value) : Within Aging (sortBegin v) := by
  unfold sortBegin
  apply Within.bind (.read _)
  intro _
  split
  · apply Within.bind (.read _)
    intro p
    split
    · dsimp only
      split_ifs
      · exact .pure _
      · apply Within.bind (.ofExcept _)
        intro needed
        apply Within.bind (ensureRoom_evolves _)
        intro _
        apply Within.bind (alloc_evolves _)
        intro _
        apply Within.bind (.ofExcept _)
        intro first
        apply Within.bind (.ofExcept _)
        intro both
        apply Within.bind (ensureRoom_evolves _)
        intro _
        apply Within.bind (alloc_evolves _)
        intro _
        apply Within.bind (.ofExcept _)
        intro charged
        apply Within.bind (ensureRoom_evolves _)
        intro _
        apply Within.bind (alloc_evolves _)
        intro _
        apply Within.bind (admitPayload_aging _)
        intro w
        split
        · apply Within.bind (.read _)
          intro q
          split
          · exact .bind (.update fun s => (steady_modifyTwo s _ _ _ _).ages) fun _ => .pure _
          · exact .fail _
        · exact .fail _
    · exact .fail _
  · exact .fail _

lemma sortStore_aging (guard : Value) (bank index element : Nat) :
    Within Aging (sortStore guard bank index element) := by
  unfold sortStore
  apply Within.bind (.read _)
  intro len
  apply Within.bind (.guardWith _ _)
  intro _
  split
  · apply Within.bind (.read _)
    intro p
    split
    · split
      · exact .bind (.guardWith _ _) fun _ => setPayload_aging
      · exact .fail _
    · exact .fail _
  · exact .fail _

lemma sortCommit_aging (guard : Value) (bank : Nat) : Within Aging (sortCommit guard bank) := by
  unfold sortCommit
  split
  · exact .guardWith _ _
  · apply Within.bind (.read _)
    intro _
    apply Within.bind (.guardWith _ _)
    intro _
    split
    · apply Within.bind (.read _)
      intro len
      apply Within.bind (.read _)
      intro p
      split
      · split
        · apply Within.bind (setPayload_aging)
          intro _
          apply Within.bind (.guardWith _ _)
          intro _
          apply Within.bind (.guardWith _ _)
          intro _
          exact .update fun s => (steady_modifyTwo s _ _ _ _).ages
        · exact .fail _
      · exact .fail _
    · exact .fail _

/-- Every call ages the handles. -/
lemma Call.run_aging (c : Call) : Within Aging c.run := by
  cases c with
  | sortBegin v => exact returning_evolves (sortBegin_aging _)
  | sortStore guard bank index element => exact performing_evolves (sortStore_aging _ _ _ _)
  | sortCommit guard bank => exact performing_evolves (sortCommit_aging _ _)
  | _ => exact Call.run_evolves _ rfl

end Store

end Rnx
