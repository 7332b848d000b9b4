import Mathlib.Data.List.Basic

/-! Data cut into chunks of a bounded size, and chunks sent until they come
through. -/
namespace DectMesh.Lib

variable {α : Type}

def cutUp (size : Nat) : Nat → Nat → List α → List (Nat × List α)
  | 0, _, _ => []
  | rounds + 1, off, data =>
      if data.isEmpty then []
      else (off, data.take size) :: cutUp size rounds (off + (data.take size).length) (data.drop size)

def chunksAt (size off : Nat) (data : List α) : List (Nat × List α) := cutUp size data.length off data

theorem cutUp_rounds {size rounds rounds' off : Nat} {data : List α} (hsize : 0 < size)
    (h : data.length ≤ rounds) (h' : data.length ≤ rounds') :
    cutUp size rounds off data = cutUp size rounds' off data := by
  induction rounds generalizing rounds' off data with
  | zero =>
    have hnil : data = [] := List.length_eq_zero_iff.mp (by omega)
    rw [hnil]
    cases rounds' <;> rfl
  | succ rounds ih =>
    cases data with
    | nil => cases rounds' <;> rfl
    | cons a rest =>
      cases rounds' with
      | zero => cases h'
      | succ rounds' =>
        have hdrop : ((a :: rest).drop size).length ≤ rest.length := by
          rw [List.length_drop, List.length_cons]
          omega
        rw [List.length_cons] at h h'
        rw [cutUp, cutUp, ih (by omega : ((a :: rest).drop size).length ≤ rounds)
          (by omega : ((a :: rest).drop size).length ≤ rounds')]

theorem chunksAt_of_ne {size off : Nat} {data : List α} (hsize : 0 < size) (h : data ≠ []) :
    chunksAt size off data =
      (off, data.take size) :: chunksAt size (off + (data.take size).length) (data.drop size) := by
  unfold chunksAt
  cases data with
  | nil => exact absurd rfl h
  | cons a rest =>
    have hdrop : ((a :: rest).drop size).length ≤ rest.length := by
      rw [List.length_drop, List.length_cons]
      omega
    rw [List.length_cons, cutUp, cutUp_rounds hsize hdrop (Nat.le_refl _)]
    rfl

theorem chunksAt_induction {size : Nat} (hsize : 0 < size) {motive : Nat → List α → Prop}
    (nil : ∀ off, motive off [])
    (cons : ∀ off data, data ≠ [] → motive (off + (data.take size).length) (data.drop size) → motive off data)
    (off : Nat) (data : List α) : motive off data := by
  induction h : data.length using Nat.strongRecOn generalizing off data with
  | ind length ih =>
    cases data with
    | nil => exact nil off
    | cons a rest =>
      apply cons off (a :: rest) (List.cons_ne_nil a rest)
      apply ih ((a :: rest).drop size).length
      · rw [List.length_drop]
        rw [List.length_cons] at h ⊢
        omega
      · rfl

/-! ## Attempts -/

variable {β : Type} [DecidableEq β]

/-- Attempts with their results, without the repeats of those that failed. -/
def settled : List (β × Int) → List β
  | [] => []
  | [(c, _)] => [c]
  | (c, sr) :: (d, sr') :: rest =>
      if sr < 0 ∧ c = d then settled ((d, sr') :: rest) else c :: settled ((d, sr') :: rest)

theorem settled_cons {c : β} {sr : Int} (h : 0 ≤ sr) (rest : List (β × Int)) :
    settled ((c, sr) :: rest) = c :: settled rest := by
  cases rest with
  | nil => rfl
  | cons p rest =>
    obtain ⟨d, sr'⟩ := p
    rw [settled, if_neg (fun hfailed => by omega)]

theorem settled_retries {c : β} {fails : List (β × Int)} (h : ∀ f ∈ fails, f.1 = c ∧ f.2 < 0) (sr : Int)
    (rest : List (β × Int)) : settled (fails ++ (c, sr) :: rest) = settled ((c, sr) :: rest) := by
  induction fails with
  | nil => rfl
  | cons f fails ih =>
    obtain ⟨d, sr'⟩ := f
    obtain ⟨rfl, hfailed⟩ := h _ List.mem_cons_self
    have hrest := ih fun g hg => h g (List.mem_cons_of_mem _ hg)
    cases fails with
    | nil => rw [List.singleton_append, settled, if_pos ⟨hfailed, rfl⟩]
    | cons g fails =>
      obtain ⟨e, sr''⟩ := g
      obtain ⟨rfl, -⟩ := h _ (List.mem_cons_of_mem _ List.mem_cons_self)
      rw [← hrest, List.cons_append, List.cons_append, settled, if_pos ⟨hfailed, rfl⟩]

theorem mem_settled {c : β} {tries : List (β × Int)} (h : c ∈ tries.map Prod.fst) : c ∈ settled tries := by
  induction tries with
  | nil => cases h
  | cons p rest ih =>
    obtain ⟨d, sr⟩ := p
    cases rest with
    | nil => exact h
    | cons q rest =>
      obtain ⟨e, sr'⟩ := q
      rw [settled]
      split
      · rename_i hsame
        rcases List.mem_cons.mp h with rfl | hrest
        · exact ih (hsame.2 ▸ List.mem_cons_self)
        · exact ih hrest
      · rcases List.mem_cons.mp h with rfl | hrest
        · exact List.mem_cons_self
        · exact List.mem_cons_of_mem _ (ih hrest)

end DectMesh.Lib
