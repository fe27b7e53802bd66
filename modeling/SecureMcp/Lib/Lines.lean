import SecureMcp.Lib.Text

set_option autoImplicit false

/-! # Lines in a stream of octets

A line ends with a newline and has no other. A stream of lines that arrives in chunks can be taken
apart again wherever the chunks were cut: `cut` splits what has arrived into its complete lines and a
remainder, and these are the lines that were sent. -/

namespace Lines

def newline : UInt8 := 0x0A

/-- One newline, at the end. -/
def IsLine (line : Bytes) : Prop := ∃ body, newline ∉ body ∧ line = body ++ [newline]

/-- The complete lines of these octets, and what follows the last of them. -/
def cut : Bytes → List Bytes × Bytes
  | [] => ([], [])
  | octet :: rest =>
    if octet = newline then ([octet] :: (cut rest).1, (cut rest).2)
    else
      match (cut rest).1 with
      | first :: later => ((octet :: first) :: later, (cut rest).2)
      | [] => ([], octet :: (cut rest).2)

theorem IsLine.ne_nil {line : Bytes} (h : IsLine line) : line ≠ [] := by
  obtain ⟨body, _, rfl⟩ := h
  simp

theorem isLine_cons {octet : UInt8} {line : Bytes} (hoctet : octet ≠ newline) (h : IsLine line) :
    IsLine (octet :: line) := by
  obtain ⟨body, hbody, rfl⟩ := h
  refine ⟨octet :: body, ?_, rfl⟩
  intro hmem
  rcases List.mem_cons.mp hmem with heq | hin
  · exact hoctet heq.symm
  · exact hbody hin

/-- Nothing is lost. -/
theorem cut_flatten (data : Bytes) : (cut data).1.flatten ++ (cut data).2 = data := by
  induction data with
  | nil => rfl
  | cons octet rest ih =>
      rw [cut]
      by_cases hoctet : octet = newline
      · rw [if_pos hoctet]
        show [octet] ++ (cut rest).1.flatten ++ (cut rest).2 = octet :: rest
        rw [List.append_assoc, ih]
        rfl
      · rw [if_neg hoctet]
        cases hlines : (cut rest).1 with
        | nil =>
            rw [hlines] at ih
            have hrest : (cut rest).2 = rest := ih
            show octet :: (cut rest).2 = octet :: rest
            rw [hrest]
        | cons first later =>
            rw [hlines] at ih
            have hrest : first ++ later.flatten ++ (cut rest).2 = rest := ih
            show octet :: (first ++ later.flatten ++ (cut rest).2) = octet :: rest
            rw [hrest]

theorem cut_lines (data : Bytes) : ∀ line ∈ (cut data).1, IsLine line := by
  induction data with
  | nil => simp [cut]
  | cons octet rest ih =>
      intro line hline
      rw [cut] at hline
      by_cases hoctet : octet = newline
      · rw [if_pos hoctet] at hline
        rcases List.mem_cons.mp hline with rfl | hlater
        · exact ⟨[], by simp, by rw [hoctet]; rfl⟩
        · exact ih line hlater
      · rw [if_neg hoctet] at hline
        cases hlines : (cut rest).1 with
        | nil =>
            rw [hlines] at hline
            exact absurd hline (by simp)
        | cons first later =>
            rw [hlines] at hline ih
            rcases List.mem_cons.mp hline with rfl | hlater
            · exact isLine_cons hoctet (ih first List.mem_cons_self)
            · exact ih line (List.mem_cons_of_mem _ hlater)

/-- Two lines at the start of the same octets are the same line. -/
theorem IsLine.eq_of_append {a b s t : Bytes} (ha : IsLine a) (hb : IsLine b)
    (h : a ++ s = b ++ t) : a = b ∧ s = t := by
  obtain ⟨x, hx, rfl⟩ := ha
  obtain ⟨y, hy, rfl⟩ := hb
  induction x generalizing y with
  | nil =>
      cases y with
      | nil => exact ⟨rfl, List.append_cancel_left h⟩
      | cons octet rest =>
          obtain ⟨rfl, _⟩ := List.cons.inj h
          exact absurd List.mem_cons_self hy
  | cons first body ih =>
      cases y with
      | nil =>
          obtain ⟨rfl, _⟩ := List.cons.inj h
          exact absurd List.mem_cons_self hx
      | cons octet rest =>
          obtain ⟨rfl, htail⟩ := List.cons.inj h
          obtain ⟨hline, hrest⟩ := ih (fun hmem => hx (List.mem_cons_of_mem _ hmem)) rest
            (fun hmem => hy (List.mem_cons_of_mem _ hmem)) htail
          exact ⟨by rw [List.cons_append, hline]; rfl, hrest⟩

/-- Complete lines found at the start of a stream of lines are the first ones of the stream. -/
theorem take_of_flatten (found : List Bytes) {sent : List Bytes} {rest : Bytes}
    (hfound : ∀ line ∈ found, IsLine line) (hsent : ∀ line ∈ sent, IsLine line)
    (h : found.flatten ++ rest = sent.flatten) :
    found = sent.take found.length ∧ rest = (sent.drop found.length).flatten := by
  induction found generalizing sent with
  | nil => exact ⟨by simp, by simpa using h⟩
  | cons line later ih =>
      cases sent with
      | nil =>
          have hne := (hfound line List.mem_cons_self).ne_nil
          simp [hne] at h
      | cons first others =>
          rw [List.flatten_cons, List.flatten_cons, List.append_assoc] at h
          obtain ⟨rfl, hrest⟩ := (hfound line List.mem_cons_self).eq_of_append
            (hsent first List.mem_cons_self) h
          obtain ⟨hlater, htail⟩ := ih (fun other hother => hfound other (List.mem_cons_of_mem _ hother))
            (fun other hother => hsent other (List.mem_cons_of_mem _ hother)) hrest
          exact ⟨by rw [List.length_cons, List.take_succ_cons, ← hlater], by simpa using htail⟩

/-- A line at the start is the first one. -/
theorem cut_line {line : Bytes} (h : IsLine line) (data : Bytes) :
    cut (line ++ data) = (line :: (cut data).1, (cut data).2) := by
  obtain ⟨body, hbody, rfl⟩ := h
  induction body with
  | nil => rfl
  | cons octet rest ih =>
      have hne : octet ≠ newline := fun heq => hbody (by rw [heq]; exact List.mem_cons_self)
      have hrest := ih (fun hmem => hbody (List.mem_cons_of_mem _ hmem))
      rw [List.cons_append, List.cons_append, cut, if_neg hne, hrest]

/-- Complete lines at the start are the first ones. -/
theorem cut_append {lines : List Bytes} (h : ∀ line ∈ lines, IsLine line) (data : Bytes) :
    cut (lines.flatten ++ data) = (lines ++ (cut data).1, (cut data).2) := by
  induction lines with
  | nil => rfl
  | cons line later ih =>
      rw [List.flatten_cons, List.append_assoc, cut_line (h line List.mem_cons_self),
        ih (fun other hother => h other (List.mem_cons_of_mem _ hother))]
      rfl

/-- What follows goes on from the remainder. -/
theorem cut_append_remainder (data more : Bytes) :
    cut (data ++ more) =
      ((cut data).1 ++ (cut ((cut data).2 ++ more)).1, (cut ((cut data).2 ++ more)).2) := by
  rw [← cut_append (cut_lines data), ← List.append_assoc, cut_flatten]

theorem newline_not_mem_remainder (data : Bytes) : newline ∉ (cut data).2 := by
  induction data with
  | nil => simp [cut]
  | cons octet rest ih =>
      rw [cut]
      by_cases hoctet : octet = newline
      · rw [if_pos hoctet]
        exact ih
      · rw [if_neg hoctet]
        cases (cut rest).1 with
        | nil =>
            intro hmem
            rcases List.mem_cons.mp hmem with heq | hin
            · exact hoctet heq.symm
            · exact ih hin
        | cons first later => exact ih

/-- A line that begins with octets that hold no newline is longer than they are. -/
theorem length_lt_of_cut {rest more line : Bytes} {later : List Bytes} (hrest : newline ∉ rest)
    (h : (cut (rest ++ more)).1 = line :: later) : rest.length < line.length := by
  have hline := cut_lines (rest ++ more) line (by rw [h]; exact List.mem_cons_self)
  have hflatten := cut_flatten (rest ++ more)
  rw [h, List.flatten_cons, List.append_assoc] at hflatten
  obtain ⟨body, _, rfl⟩ := hline
  by_contra hle
  have hstarts : body ++ [newline] <+: rest :=
    List.prefix_of_prefix_length_le ⟨_, hflatten⟩ (List.prefix_append rest more) (Nat.le_of_not_lt hle)
  exact hrest (hstarts.subset (by simp))

/-- The complete lines of the start of a stream of lines are the first ones of the stream, -/
theorem cut_of_start {data : Bytes} {lines : List Bytes} (hlines : ∀ line ∈ lines, IsLine line)
    (h : data <+: lines.flatten) : (cut data).1 <+: lines := by
  obtain ⟨more, hmore⟩ := h
  have hflatten : (cut data).1.flatten ++ ((cut data).2 ++ more) = lines.flatten := by
    rw [← List.append_assoc, cut_flatten, hmore]
  rw [(take_of_flatten _ (cut_lines data) hlines hflatten).1]
  exact List.take_prefix _ _

/-- and what is left is shorter than the line it belongs to. -/
theorem remainder_of_start {data : Bytes} {lines : List Bytes} (hlines : ∀ line ∈ lines, IsLine line)
    (h : data <+: lines.flatten) :
    (cut data).2 = [] ∨ ∃ line ∈ lines, (cut data).2.length < line.length := by
  obtain ⟨more, hmore⟩ := h
  have hflatten : (cut data).1.flatten ++ ((cut data).2 ++ more) = lines.flatten := by
    rw [← List.append_assoc, cut_flatten, hmore]
  have hleft := (take_of_flatten _ (cut_lines data) hlines hflatten).2
  generalize (cut data).1.length = m at hleft
  cases hnext : lines.drop m with
  | nil =>
      rw [hnext, List.flatten_nil, List.append_eq_nil_iff] at hleft
      exact Or.inl hleft.1
  | cons line others =>
      have hlater : ∀ other ∈ lines.drop m, IsLine other :=
        fun other hother => hlines other (List.mem_of_mem_drop hother)
      have hrecut := cut_append hlater []
      rw [List.append_nil, ← hleft, hnext] at hrecut
      exact Or.inr ⟨line, List.mem_of_mem_drop (hnext ▸ List.mem_cons_self),
        length_lt_of_cut (newline_not_mem_remainder data) (congrArg Prod.fst hrecut)⟩

end Lines
