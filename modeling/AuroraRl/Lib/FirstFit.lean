import Mathlib.Data.List.Forall2
import Mathlib.Data.List.Induction
import Mathlib.Data.List.Perm.Basic

/-!
# First fit

* `place`, `firstFit` : each item goes into the first bin that takes it, or opens one at the end;
* `firstFit_perm`, `firstFit_bins` : the bins partition the items, and what each addition keeps holds of every bin;
* `firstFit_map` : renaming the items commutes with packing;
* `placeM`, `firstFitM` : bins kept as values an item may fail to enter;
* `firstFitM_eq_ok_iff` : these succeed iff each bin of `firstFit` can be filled, and then with those values.
-/

namespace FirstFit

variable {ι κ β ε : Type}

/-! ## Bins of items -/

section

variable (takes : List ι → ι → Bool)

def place (x : ι) : List (List ι) → List (List ι)
  | [] => [[x]]
  | bin :: bins => if takes bin x then (bin ++ [x]) :: bins else bin :: place x bins

def firstFit (xs : List ι) : List (List ι) := xs.foldl (fun bins x => place takes x bins) []

variable {takes}

theorem place_perm (x : ι) (bins : List (List ι)) : (place takes x bins).flatten.Perm (bins.flatten ++ [x]) := by
  induction bins with
  | nil => exact .refl _
  | cons bin bins ih =>
      unfold place
      split_ifs
      · rw [List.flatten_cons, List.flatten_cons, List.append_assoc, List.append_assoc]
        exact List.perm_append_comm.append_left bin
      · rw [List.flatten_cons, List.flatten_cons, List.append_assoc]
        exact ih.append_left bin

theorem foldl_place_perm (xs : List ι) (bins : List (List ι)) :
    (xs.foldl (fun bins x => place takes x bins) bins).flatten.Perm (bins.flatten ++ xs) := by
  induction xs generalizing bins with
  | nil => exact .of_eq (List.append_nil _).symm
  | cons x xs ih =>
      refine (ih _).trans ?_
      rw [← List.singleton_append, ← List.append_assoc]
      exact (place_perm x bins).append_right xs

theorem firstFit_perm (xs : List ι) : (firstFit takes xs).flatten.Perm xs := foldl_place_perm xs []

theorem place_bins {P : List ι → Prop} {x : ι} {bins : List (List ι)} (hbins : ∀ bin ∈ bins, P bin) (hopen : P [x])
    (hadd : ∀ bin ∈ bins, takes bin x = true → P (bin ++ [x])) : ∀ bin ∈ place takes x bins, P bin := by
  induction bins with
  | nil =>
      intro bin hbin
      rwa [List.mem_singleton.1 hbin]
  | cons b bins ih =>
      have hb := hbins b List.mem_cons_self
      have hrest : ∀ bin ∈ bins, P bin := fun bin h => hbins bin (List.mem_cons_of_mem _ h)
      intro bin hbin
      unfold place at hbin
      split_ifs at hbin with ht
      · rcases List.mem_cons.1 hbin with rfl | hbin
        · exact hadd b List.mem_cons_self ht
        · exact hrest bin hbin
      · rcases List.mem_cons.1 hbin with rfl | hbin
        · exact hb
        · exact ih hrest (fun bin h => hadd bin (List.mem_cons_of_mem _ h)) bin hbin

/-- What holds of a bin just opened and is kept by each item a bin takes holds of every bin. -/
theorem firstFit_bins {P : List ι → Prop} {xs : List ι} (hopen : ∀ x ∈ xs, P [x])
    (hadd : ∀ bin, ∀ x ∈ xs, P bin → takes bin x = true → P (bin ++ [x])) : ∀ bin ∈ firstFit takes xs, P bin := by
  have hfold : ∀ (l : List ι) (bins : List (List ι)), (∀ x ∈ l, x ∈ xs) → (∀ bin ∈ bins, P bin) →
      ∀ bin ∈ l.foldl (fun bins x => place takes x bins) bins, P bin := by
    intro l
    induction l with
    | nil => exact fun bins _ hbins => hbins
    | cons x l ih =>
        intro bins hl hbins
        have hx := hl x List.mem_cons_self
        refine ih _ (fun y hy => hl y (List.mem_cons_of_mem _ hy)) (place_bins hbins (hopen x hx) ?_)
        exact fun bin hbin ht => hadd bin x hx (hbins bin hbin) ht
  exact hfold xs [] (fun _ h => h) fun _ h => absurd h List.not_mem_nil

theorem firstFit_ne_nil {xs : List ι} : ∀ bin ∈ firstFit takes xs, bin ≠ [] :=
  firstFit_bins (fun x _ => List.cons_ne_nil x []) fun _ x _ _ _ =>
    List.append_ne_nil_of_right_ne_nil _ (List.cons_ne_nil x [])

theorem mem_of_firstFit {xs : List ι} {bin : List ι} (hbin : bin ∈ firstFit takes xs) {x : ι} (hx : x ∈ bin) : x ∈ xs :=
  (firstFit_perm xs).subset (List.mem_flatten.2 ⟨bin, hbin, hx⟩)

theorem exists_bin {xs : List ι} {x : ι} (hx : x ∈ xs) : ∃ bin ∈ firstFit takes xs, x ∈ bin :=
  List.mem_flatten.1 ((firstFit_perm xs).symm.subset hx)

/-- A bin has its items in the order they came in. -/
theorem firstFit_sublist {xs : List ι} : ∀ bin ∈ firstFit takes xs, bin.Sublist xs := by
  induction xs using List.reverseRecOn with
  | nil => exact fun _ h => absurd h List.not_mem_nil
  | append_singleton xs x ih =>
      have hconcat : firstFit takes (xs ++ [x]) = place takes x (firstFit takes xs) := by
        unfold firstFit
        rw [List.foldl_append]
        rfl
      rw [hconcat]
      refine place_bins (fun bin hbin => (ih bin hbin).trans (List.sublist_append_left xs [x]))
        (List.sublist_append_right xs [x]) fun bin hbin _ => ?_
      exact (ih bin hbin).append (List.Sublist.refl [x])

theorem place_map (f : κ → ι) (x : κ) (bins : List (List κ)) :
    place takes (f x) (bins.map (List.map f)) =
      (place (fun bin y => takes (bin.map f) (f y)) x bins).map (List.map f) := by
  induction bins with
  | nil => rfl
  | cons bin bins ih =>
      simp only [List.map_cons, place]
      split_ifs
      · simp
      · rw [ih, List.map_cons]

theorem firstFit_map (f : κ → ι) (xs : List κ) :
    firstFit takes (xs.map f) = (firstFit (fun bin y => takes (bin.map f) (f y)) xs).map (List.map f) := by
  have hfold : ∀ bins : List (List κ), (xs.map f).foldl (fun bins x => place takes x bins) (bins.map (List.map f)) =
      (xs.foldl (fun bins x => place (fun bin y => takes (bin.map f) (f y)) x bins) bins).map (List.map f) := by
    induction xs with
    | nil => exact fun _ => rfl
    | cons x xs ih =>
        intro bins
        rw [List.map_cons, List.foldl_cons, List.foldl_cons, place_map, ih]
  exact hfold []

end

/-! ## Bins that items may fail to enter -/

/-- A list is related to some list iff each of its elements is related to something. -/
theorem exists_of_mem_forall₂ {r : ι → β → Prop} {l : List ι} {l' : List β} (h : List.Forall₂ r l l') {y : β} (hy : y ∈ l') :
    ∃ x ∈ l, r x y := by
  induction h with
  | nil => cases hy
  | cons hr _ ih =>
      rcases List.mem_cons.1 hy with rfl | hy
      · exact ⟨_, List.mem_cons_self, hr⟩
      · obtain ⟨x, hx, hxy⟩ := ih hy
        exact ⟨x, List.mem_cons_of_mem _ hx, hxy⟩

theorem exists_forall₂_iff {r : ι → β → Prop} {l : List ι} : (∃ l', List.Forall₂ r l l') ↔ ∀ x ∈ l, ∃ y, r x y := by
  constructor
  · rintro ⟨l', h⟩
    induction h with
    | nil => exact fun _ h => absurd h List.not_mem_nil
    | cons hy _ ih =>
        intro x hx
        rcases List.mem_cons.1 hx with rfl | hx
        · exact ⟨_, hy⟩
        · exact ih x hx
  · intro h
    induction l with
    | nil => exact ⟨[], .nil⟩
    | cons x l ih =>
        obtain ⟨y, hy⟩ := h x List.mem_cons_self
        obtain ⟨l', hl'⟩ := ih fun z hz => h z (List.mem_cons_of_mem _ hz)
        exact ⟨y :: l', .cons hy hl'⟩

/-- Related lists whose related elements agree about a property agree about it as a whole. -/
theorem forall₂_forall_iff {P : ι → Prop} {Q : β → Prop} {l : List ι} {l' : List β}
    (h : List.Forall₂ (fun x y => P x ↔ Q y) l l') : (∀ x ∈ l, P x) ↔ ∀ y ∈ l', Q y := by
  induction h with
  | nil => exact iff_of_true (fun _ h => absurd h List.not_mem_nil) fun _ h => absurd h List.not_mem_nil
  | cons hxy _ ih => rw [List.forall_mem_cons, List.forall_mem_cons, hxy, ih]

variable (opens : ι → Except ε β) (add : β → ι → Except ε β) (fits : β → ι → Bool)

def placeM (x : ι) : List β → Except ε (List β)
  | [] => do return [← opens x]
  | b :: bs => if fits b x then do return (← add b x) :: bs else do return b :: (← placeM x bs)

def firstFitM (xs : List ι) : Except ε (List β) := xs.foldlM (fun bs x => placeM opens add fits x bs) []

/-- The value of a bin after its first item was put in and the others were added. -/
inductive Built : List ι → β → Prop
  | opened {x : ι} {b : β} (h : opens x = .ok b) : Built [x] b
  | added {bin : List ι} {x : ι} {b b' : β} (hbin : Built bin b) (h : add b x = .ok b') : Built (bin ++ [x]) b'

variable {opens add fits}

theorem Built.ne_nil {bin : List ι} {b : β} (h : Built opens add bin b) : bin ≠ [] := by
  cases h with
  | opened => exact List.cons_ne_nil _ _
  | added => exact List.append_ne_nil_of_right_ne_nil _ (List.cons_ne_nil _ _)

theorem built_singleton {x : ι} {b : β} : Built opens add [x] b ↔ opens x = .ok b := by
  constructor
  · intro h
    generalize hl : [x] = l at h
    cases h with
    | opened h =>
        cases hl
        exact h
    | @added bin y _ _ hbin =>
        have hlen := congrArg List.length hl
        rw [List.length_append] at hlen
        have hpos := List.length_pos_iff.2 hbin.ne_nil
        simp only [List.length_cons, List.length_nil] at hlen
        omega
  · exact .opened

theorem built_concat {bin : List ι} {x : ι} {b' : β} (hne : bin ≠ []) :
    Built opens add (bin ++ [x]) b' ↔ ∃ b, Built opens add bin b ∧ add b x = .ok b' := by
  constructor
  · intro h
    generalize hl : bin ++ [x] = l at h
    cases h with
    | @opened y =>
        have hlen := congrArg List.length hl
        rw [List.length_append] at hlen
        have hpos := List.length_pos_iff.2 hne
        simp only [List.length_cons, List.length_nil] at hlen
        omega
    | @added bin' y b _ hbin h =>
        obtain ⟨rfl, hxy⟩ := List.append_inj' hl rfl
        cases hxy
        exact ⟨b, hbin, h⟩
  · rintro ⟨b, hb, h⟩
    exact .added hb h

theorem Built.unique {bin : List ι} {b b' : β} (h : Built opens add bin b) (h' : Built opens add bin b') : b = b' := by
  induction h generalizing b' with
  | opened h =>
      rw [built_singleton, h] at h'
      cases h'
      rfl
  | added hbin h ih =>
      obtain ⟨c, hc, hadd⟩ := (built_concat hbin.ne_nil).1 h'
      rw [← ih hc, h] at hadd
      cases hadd
      rfl

theorem forall₂_built_unique {bins : List (List ι)} {bs bs' : List β} (h : List.Forall₂ (Built opens add) bins bs)
    (h' : List.Forall₂ (Built opens add) bins bs') : bs = bs' := by
  induction h generalizing bs' with
  | nil =>
      cases h'
      rfl
  | cons hb _ ih =>
      cases h' with
      | cons hb' h' => rw [hb.unique hb', ih h']

section

variable {takes : List ι → ι → Bool}
  (hfits : ∀ {bin : List ι} {b : β} (x : ι), Built opens add bin b → fits b x = takes bin x)

include hfits

theorem placeM_eq_ok_iff {x : ι} {bins : List (List ι)} {bs bs' : List β}
    (h : List.Forall₂ (Built opens add) bins bs) :
    placeM opens add fits x bs = .ok bs' ↔ List.Forall₂ (Built opens add) (place takes x bins) bs' := by
  induction h generalizing bs' with
  | nil =>
      unfold placeM place
      cases ho : opens x with
      | error e =>
          refine ⟨fun h => (by cases h), fun h => ?_⟩
          cases h with
          | cons hb _ =>
              rw [built_singleton, ho] at hb
              cases hb
      | ok b =>
          constructor
          · intro h
            cases h
            exact .cons (.opened ho) .nil
          · intro h
            cases h with
            | cons hb h =>
                cases h
                rw [built_singleton, ho] at hb
                cases hb
                rfl
  | @cons bin b bins bs hb hbs ih =>
      unfold placeM place
      rw [hfits x hb]
      split_ifs with ht
      · cases ha : add b x with
        | error e =>
            refine ⟨fun h => (by cases h), fun h => ?_⟩
            cases h with
            | cons hb' _ =>
                obtain ⟨c, hc, hadd⟩ := (built_concat hb.ne_nil).1 hb'
                rw [hc.unique hb, ha] at hadd
                cases hadd
        | ok b' =>
            constructor
            · intro h
              cases h
              exact .cons (.added hb ha) hbs
            · intro h
              cases h with
              | cons hb' h =>
                  rw [hb'.unique (.added hb ha), forall₂_built_unique h hbs]
                  rfl
      · cases hp : placeM opens add fits x bs with
        | error e =>
            refine ⟨fun h => (by cases h), fun h => ?_⟩
            cases h with
            | cons _ h =>
                rw [ih.2 h] at hp
                cases hp
        | ok bs₁ =>
            constructor
            · intro h
              cases h
              exact .cons hb (ih.1 hp)
            · intro h
              cases h with
              | cons hb' h =>
                  rw [hb'.unique hb, forall₂_built_unique h (ih.1 hp)]
                  rfl

end

/-- Bins only grow, so what can be filled later could be filled before. -/
theorem exists_built_of_place {takes : List ι → ι → Bool} {x : ι} {bins : List (List ι)} (hne : ∀ bin ∈ bins, bin ≠ [])
    (h : ∀ bin ∈ place takes x bins, ∃ b, Built opens add bin b) : ∀ bin ∈ bins, ∃ b, Built opens add bin b := by
  induction bins with
  | nil => exact fun _ h => absurd h List.not_mem_nil
  | cons b bins ih =>
      unfold place at h
      intro bin hbin
      split_ifs at h with ht
      · rcases List.mem_cons.1 hbin with rfl | hbin
        · obtain ⟨c, hc⟩ := h _ List.mem_cons_self
          obtain ⟨c', hc', -⟩ := (built_concat (hne bin List.mem_cons_self)).1 hc
          exact ⟨c', hc'⟩
        · exact h bin (List.mem_cons_of_mem _ hbin)
      · rcases List.mem_cons.1 hbin with rfl | hbin
        · exact h bin List.mem_cons_self
        · exact ih (fun bin h => hne bin (List.mem_cons_of_mem _ h))
            (fun bin hb => h bin (List.mem_cons_of_mem _ hb)) bin hbin

theorem exists_built_of_foldl {takes : List ι → ι → Bool} (xs : List ι) {bins : List (List ι)}
    (hne : ∀ bin ∈ bins, bin ≠ [])
    (h : ∀ bin ∈ xs.foldl (fun bins x => place takes x bins) bins, ∃ b, Built opens add bin b) :
    ∀ bin ∈ bins, ∃ b, Built opens add bin b := by
  induction xs generalizing bins with
  | nil => exact h
  | cons x xs ih =>
      refine exists_built_of_place hne (ih (place_bins hne (List.cons_ne_nil x []) fun _ _ _ => ?_) h)
      exact List.append_ne_nil_of_right_ne_nil _ (List.cons_ne_nil x [])

/-- The packing succeeds iff every bin of `firstFit` can be filled, and its bins are those. -/
theorem firstFitM_eq_ok_iff {takes : List ι → ι → Bool}
    (hfits : ∀ {bin : List ι} {b : β} (x : ι), Built opens add bin b → fits b x = takes bin x) {xs : List ι} {bs : List β} :
    firstFitM opens add fits xs = .ok bs ↔ List.Forall₂ (Built opens add) (firstFit takes xs) bs := by
  have hfold : ∀ (l : List ι) (bins : List (List ι)) (bs₀ : List β), List.Forall₂ (Built opens add) bins bs₀ →
      (l.foldlM (fun bs x => placeM opens add fits x bs) bs₀ = .ok bs ↔
        List.Forall₂ (Built opens add) (l.foldl (fun bins x => place takes x bins) bins) bs) := by
    intro l
    induction l with
    | nil =>
        intro bins bs₀ h₀
        constructor
        · intro h
          cases h
          exact h₀
        · intro h
          rw [List.foldlM_nil, forall₂_built_unique h h₀]
          rfl
    | cons x l ih =>
        intro bins bs₀ h₀
        rw [List.foldlM_cons, List.foldl_cons]
        cases hp : placeM opens add fits x bs₀ with
        | ok bs₁ => exact ih _ bs₁ ((placeM_eq_ok_iff hfits h₀).1 hp)
        | error e =>
            refine ⟨fun h => (by cases h), fun h => ?_⟩
            -- the bins as they were after this item could have been filled
            have hne : ∀ bin ∈ bins, bin ≠ [] := fun bin hbin =>
              (exists_forall₂_iff.1 ⟨bs₀, h₀⟩ bin hbin).elim fun _ hb => hb.ne_nil
            have hne' := @place_bins _ takes _ _ _ hne (List.cons_ne_nil x [])
              fun _ _ _ => List.append_ne_nil_of_right_ne_nil _ (List.cons_ne_nil x [])
            obtain ⟨bs₁, h₁⟩ := exists_forall₂_iff.2
              (exists_built_of_foldl l hne' (exists_forall₂_iff.1 ⟨bs, h⟩))
            rw [(placeM_eq_ok_iff hfits h₀).2 h₁] at hp
            cases hp
  exact hfold xs [] [] .nil

/-- What an opened bin has and an item keeps that a bin takes, every bin and its value have. -/
theorem built_of_firstFit {takes : List ι → ι → Bool} {P : List ι → β → Prop} {xs : List ι}
    (hopen : ∀ x ∈ xs, ∀ b, opens x = .ok b → P [x] b)
    (hadd : ∀ bin, ∀ x ∈ xs, ∀ b b', bin ≠ [] → P bin b → takes bin x = true → add b x = .ok b' → P (bin ++ [x]) b') :
    ∀ bin ∈ firstFit takes xs, ∀ b, Built opens add bin b → P bin b := by
  have hbins : ∀ bin ∈ firstFit takes xs, bin ≠ [] ∧ ∀ b, Built opens add bin b → P bin b := by
    refine firstFit_bins (fun x hx => ⟨List.cons_ne_nil x [], fun b hb => hopen x hx b (built_singleton.1 hb)⟩) ?_
    rintro bin x hx ⟨hne, hP⟩ ht
    refine ⟨List.append_ne_nil_of_right_ne_nil _ (List.cons_ne_nil x []), fun b' hb' => ?_⟩
    obtain ⟨b, hb, h⟩ := (built_concat hne).1 hb'
    exact hadd bin x hx b b' hne (hP b hb) ht h
  exact fun bin hbin => (hbins bin hbin).2

end FirstFit
