import Mathlib.Data.List.Basic
import Mathlib.Data.List.TakeDrop

/-! Reading a stream of records in pages. The stream is made anew for every
page: records before the offset are skipped, and a page ends before the first
record it has no room for. A reader goes on from where a page ended until it
gets an empty one.

And reading a content that stays as it is, from behind what is already read. -/
namespace DectMesh.Lib

universe u

variable {α : Type u} (record : α → List UInt8)

/-- The page at `offset` with room for `count` bytes, `pos` bytes into the stream
with `out` already in it. -/
def recordPage (offset count : Nat) : Nat → List UInt8 → List α → List UInt8
  | _, out, [] => out
  | pos, out, x :: rest =>
      if offset ≤ pos then
        if count < out.length + (record x).length then out
        else recordPage offset count (pos + (record x).length) (out ++ record x) rest
      else recordPage offset count (pos + (record x).length) out rest

def listing (read : Nat → Nat → Option (List UInt8)) (counts : Nat → Nat) :
    Nat → Nat → Nat → Option (List (List UInt8))
  | 0, _, _ => none
  | fuel + 1, k, offset =>
      (read offset (counts k)).bind fun page =>
        if page = [] then some [page]
        else (listing read counts fuel (k + 1) (offset + page.length)).map fun later => page :: later

section

variable {record} {offset count pos : Nat}

theorem recordPage_takes (count : Nat) (out : List UInt8) (rest : List α) (hpos : offset ≤ pos) :
    ∃ taken later, rest = taken ++ later ∧
      recordPage record offset count pos out rest = out ++ taken.flatMap record ∧
      ∀ x ∈ later.head?, count < (out ++ taken.flatMap record).length + (record x).length := by
  induction rest generalizing pos out with
  | nil => exact ⟨[], [], rfl, (List.append_nil out).symm, nofun⟩
  | cons x rest ih =>
    rw [recordPage, if_pos hpos]
    by_cases hfull : count < out.length + (record x).length
    · refine ⟨[], x :: rest, rfl, ?_, ?_⟩
      · rw [if_pos hfull, List.flatMap_nil, List.append_nil]
      · rintro y ⟨⟩
        rwa [List.flatMap_nil, List.append_nil]
    · obtain ⟨taken, later, rfl, hpage, hstop⟩ := ih (out ++ record x) (Nat.le_add_right_of_le hpos)
      refine ⟨x :: taken, later, rfl, ?_, ?_⟩
      · rw [if_neg hfull, hpage, List.flatMap_cons, List.append_assoc]
      · rwa [List.flatMap_cons, ← List.append_assoc]

theorem recordPage_skips (done rest : List α) (hoffset : pos + (done.flatMap record).length = offset) :
    recordPage record offset count pos [] (done ++ rest) = recordPage record offset count offset [] rest := by
  induction done generalizing pos with
  | nil =>
    rw [List.nil_append, ← hoffset]
    rfl
  | cons x done ih =>
    rw [List.flatMap_cons, List.length_append, ← Nat.add_assoc] at hoffset
    rw [List.cons_append, recordPage]
    by_cases hpos : offset ≤ pos
    · have hempty : (record x).length = 0 := by omega
      rw [if_pos hpos, if_neg (by rw [hempty]; exact Nat.not_lt_zero _), List.length_eq_zero_iff.mp hempty]
      exact ih (by simpa [hempty] using hoffset)
    · rw [if_neg hpos]
      exact ih hoffset

theorem listing_rest {xs : List α} {counts : Nat → Nat} (hcounts : ∀ k, ∀ x ∈ xs, (record x).length ≤ counts k)
    {fuel : Nat} (k : Nat) (done rest : List α) (hxs : done ++ rest = xs) (hfuel : rest.length < fuel) :
    ∃ groups : List (List α), groups.flatten = rest ∧
      listing (fun offset count => some (recordPage record offset count 0 [] xs)) counts fuel k
        (done.flatMap record).length = some (groups.map fun group => group.flatMap record) := by
  induction fuel generalizing k done rest with
  | zero => cases hfuel
  | succ fuel ih =>
    obtain ⟨taken, later, rfl, hpage, hstop⟩ :=
      recordPage_takes (counts k) [] rest (Nat.le_refl (done.flatMap record).length)
    rw [List.nil_append] at hpage hstop
    rw [listing, ← hxs, recordPage_skips done _ (Nat.zero_add _), hpage, Option.bind_some]
    by_cases hempty : taken.flatMap record = []
    · -- nothing is left without room for it
      have hlater : later = [] := by
        cases later with
        | nil => rfl
        | cons x later =>
          have hroom := hcounts k x (by simp [← hxs])
          have hfull := hstop x rfl
          rw [hempty, List.length_nil] at hfull
          omega
      rw [if_pos hempty, hlater]
      exact ⟨[taken], by simp, rfl⟩
    · have htaken : 0 < taken.length := by
        cases taken with
        | nil => exact absurd rfl hempty
        | cons x taken => exact Nat.succ_pos _
      rw [List.length_append] at hfuel
      obtain ⟨groups, hgroups, hlisting⟩ :=
        ih (k + 1) (done ++ taken) later (by rw [List.append_assoc, hxs]) (by omega)
      rw [List.flatMap_append, List.length_append, ← hxs] at hlisting
      rw [if_neg hempty, hlisting]
      exact ⟨taken :: groups, by rw [List.flatten_cons, hgroups], rfl⟩

/-- Every record comes whole and once, in order, whatever the pages. -/
theorem listing_complete {xs : List α} {counts : Nat → Nat} (hcounts : ∀ k, ∀ x ∈ xs, (record x).length ≤ counts k)
    {fuel : Nat} (hfuel : xs.length < fuel) :
    ∃ groups : List (List α), groups.flatten = xs ∧
      listing (fun offset count => some (recordPage record offset count 0 [] xs)) counts fuel 0 0 =
        some (groups.map fun group => group.flatMap record) :=
  listing_rest hcounts 0 [] xs rfl hfuel

end

section

variable {content text : List α}

theorem page_begins (h : text <+: content) (count : Nat) :
    text ++ (content.drop text.length).take count <+: content := by
  obtain ⟨rest, rfl⟩ := h
  rw [List.drop_left, List.prefix_append_right_inj]
  exact List.take_prefix count rest

theorem page_ends {count : Nat} (h : text <+: content) (hcount : count ≠ 0)
    (hpage : (content.drop text.length).take count = []) : text = content := by
  obtain ⟨rest, rfl⟩ := h
  rw [List.drop_left, List.take_eq_nil_iff] at hpage
  rw [hpage.resolve_left hcount, List.append_nil]

end

section

variable {read : Nat → Nat → List α} {content text : List α} {offset : Nat}

/-- A file read from an offset on, each page where the last one ended, until a
page is empty. -/
inductive Reads (read : Nat → Nat → List α) : Nat → List α → Prop where
  | done {offset : Nat} (count : Nat) (positive : 0 < count) (ends : read offset count = []) : Reads read offset []
  | page {offset : Nat} {text : List α} (count : Nat) (nonempty : read offset count ≠ [])
      (rest : Reads read (offset + (read offset count).length) text) : Reads read offset (read offset count ++ text)

theorem Reads.whole (hread : ∀ offset count, read offset count = (content.drop offset).take count)
    (h : Reads read offset text) : text = content.drop offset := by
  induction h with
  | done count positive ends =>
    rw [hread, List.take_eq_nil_iff] at ends
    exact (ends.resolve_left (Nat.ne_of_gt positive)).symm
  | @page offset text count nonempty rest ih =>
    rw [ih, hread, ← List.drop_drop, List.length_take]
    generalize content.drop offset = left
    rcases Nat.le_total count left.length with hle | hle
    · rw [Nat.min_eq_left hle, List.take_append_drop]
    · rw [Nat.min_eq_right hle, List.take_of_length_le hle, List.drop_length, List.append_nil]

end

end DectMesh.Lib
