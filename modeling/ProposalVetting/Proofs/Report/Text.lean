import ProposalVetting.Proofs.Report.Buckets

namespace ProposalVetting.Report

def heading (label : String) : String := "  " ++ label ++ ":"

def item (message : String) : String := "    - " ++ message

/-- A heading and the messages below it; a bucket that is empty shows no heading. -/
def bucketLines (label : String) (messages : List String) : List String :=
  if messages = [] then [] else heading label :: messages.map item

/-- The name, then the buckets that hold anything, the worst first. -/
def lines (r : Report) : List String :=
  r.name ::
    (bucketLines "errors" r.errors ++ bucketLines "warnings" r.warnings ++
      bucketLines "info" r.info)

/-- There is no line feed in the name and in the messages. -/
structure Unbroken (r : Report) : Prop where
  name : '\n' ∉ r.name.toList
  messages : ∀ s, ∀ m ∈ r.bucket s, '\n' ∉ m.toList

variable {r r' : Report} {s t : Severity} {label l : String} {ls ms xs ys rest rest' : List String}

section Lines

/-- The lines as one text, each with a line feed behind it. -/
def ended (ls : List String) : String := String.join (ls.map (· ++ "\n"))

theorem ended_append (ls ms : List String) : ended (ls ++ ms) = ended ls ++ ended ms := by
  rw [ended, List.map_append, String.join_append, ended, ended]

theorem ended_cons (l : String) (ls : List String) : ended (l :: ls) = l ++ "\n" ++ ended ls := by
  rw [ended, List.map_cons, String.join_cons, ended]

theorem bucketText_eq_ended (label : String) (messages : List String) :
    bucketText label messages = ended (bucketLines label messages) := by
  rw [bucketText, bucketLines]
  split
  · rfl
  · have hitems : (messages.map item).map (· ++ "\n") =
        messages.map fun m => "    - " ++ m ++ "\n" := List.map_map
    rw [ended_cons, ended, hitems, heading]
    simp only [String.append_assoc]
    rfl

theorem text_eq_ended (r : Report) : r.text = ended r.lines := by
  rw [text, bucketText_eq_ended, bucketText_eq_ended, bucketText_eq_ended, lines, ended_cons,
    ended_append, ended_append]
  simp only [String.append_assoc]

/-- Splitting at line feeds gives the lines back, and behind the last line feed there is nothing. -/
theorem splitOn_ended (h : ∀ l ∈ ls, '\n' ∉ l.toList) :
    (ended ls).toList.splitOn '\n' = ls.map String.toList ++ [[]] := by
  induction ls with
  | nil => rfl
  | cons l rest ih =>
    obtain ⟨hl, hrest⟩ := List.forall_mem_cons.1 h
    have hshape : (ended (l :: rest)).toList = l.toList ++ '\n' :: (ended rest).toList := by
      rw [ended_cons, String.toList_append, String.toList_append, List.append_assoc]
      rfl
    rw [hshape, List.splitOn_append_cons_self_of_not_mem hl, ih hrest]
    rfl

theorem ended_inj (hl : ∀ l ∈ ls, '\n' ∉ l.toList) (hm : ∀ m ∈ ms, '\n' ∉ m.toList)
    (h : ended ls = ended ms) : ls = ms := by
  have hsplit : ls.map String.toList ++ [[]] = ms.map String.toList ++ [[]] := by
    rw [← splitOn_ended hl, h, splitOn_ended hm]
  exact List.map_injective_iff.2 (fun _ _ => String.toList_inj.1) (List.append_cancel_right hsplit)

end Lines

section Buckets

/-- What stands above the messages of a severity. -/
def title : Severity → String
  | .info => "info"
  | .warning => "warnings"
  | .error => "errors"

theorem title_inj (h : title s = title t) : s = t := by
  cases s <;> cases t <;> simp_all [title]

theorem heading_inj {l l' : String} (h : heading l = heading l') : l = l' :=
  (String.append_right_inj _).1 ((String.append_left_inj _).1 h)

theorem heading_title_ne_item (s : Severity) (m : String) : heading (title s) ≠ item m := by
  intro h
  have hthird := congrArg (fun l => l.toList[2]?) h
  cases s <;> simp [heading, title, item] at hthird

theorem item_inj {m m' : String} (h : item m = item m') : m = m' := (String.append_right_inj _).1 h

/-- What comes next begins neither with the heading of `label` nor with a message. -/
def Elsewhere (label : String) (rest : List String) : Prop :=
  ∀ l ∈ rest.head?, l ≠ heading label ∧ ∀ m, l ≠ item m

/-- Messages end where no message follows. -/
theorem map_item_append_inj (hrest : ∀ l ∈ rest.head?, ∀ m, l ≠ item m)
    (hrest' : ∀ l ∈ rest'.head?, ∀ m, l ≠ item m) (h : xs.map item ++ rest = ys.map item ++ rest') :
    xs = ys ∧ rest = rest' := by
  induction xs generalizing ys with
  | nil =>
    cases ys with
    | nil => exact ⟨rfl, h⟩
    | cons y ys =>
      rw [List.map_nil, List.nil_append] at h
      exact absurd rfl (hrest (item y) (by rw [h]; rfl) y)
  | cons x xs ih =>
    cases ys with
    | nil =>
      rw [List.map_nil, List.nil_append] at h
      exact absurd rfl (hrest' (item x) (by rw [← h]; rfl) x)
    | cons y ys =>
      obtain ⟨hxy, htail⟩ := List.cons.inj h
      obtain ⟨rfl, hbehind⟩ := ih htail
      exact ⟨by rw [item_inj hxy], hbehind⟩

theorem bucketLines_append_inj (hrest : Elsewhere label rest) (hrest' : Elsewhere label rest')
    (h : bucketLines label xs ++ rest = bucketLines label ys ++ rest') :
    xs = ys ∧ rest = rest' := by
  rw [bucketLines, bucketLines] at h
  by_cases hx : xs = [] <;> by_cases hy : ys = []
  · rw [if_pos hx, if_pos hy] at h
    exact ⟨hx.trans hy.symm, h⟩
  · -- the heading of the right side would have to begin the rest of the left side
    rw [if_pos hx, if_neg hy, List.nil_append] at h
    exact absurd rfl (hrest (heading label) (by rw [h]; rfl)).1
  · rw [if_neg hx, if_pos hy, List.nil_append] at h
    exact absurd rfl (hrest' (heading label) (by rw [← h]; rfl)).1
  · rw [if_neg hx, if_neg hy] at h
    exact map_item_append_inj (fun l hl => (hrest l hl).2) (fun l hl => (hrest' l hl).2)
      (List.cons.inj h).2

theorem eq_of_mem_bucketLines (hl : l ∈ bucketLines label ms) :
    l = heading label ∨ ∃ m ∈ ms, l = item m := by
  rw [bucketLines] at hl
  split at hl
  · cases hl
  · rcases List.mem_cons.1 hl with rfl | hl
    · exact .inl rfl
    · obtain ⟨m, hm, rfl⟩ := List.mem_map.1 hl
      exact .inr ⟨m, hm, rfl⟩

theorem length_bucketLines (label : String) (messages : List String) :
    (bucketLines label messages).length = (if messages = [] then 0 else 1) + messages.length := by
  rw [bucketLines]
  split
  · next h => rw [h]; rfl
  · rw [List.length_cons, List.length_map, Nat.add_comm]

/-- The buckets of a report one below the other. -/
def stacked (r : Report) (severities : List Severity) : List String :=
  severities.flatMap fun s => bucketLines (title s) (r.bucket s)

theorem exists_heading_of_head?_stacked {severities : List Severity}
    (hl : l ∈ (r.stacked severities).head?) : ∃ s ∈ severities, l = heading (title s) := by
  induction severities with
  | nil => cases hl
  | cons s rest ih =>
    rw [stacked, List.flatMap_cons, bucketLines] at hl
    split at hl
    · obtain ⟨t, ht, hlt⟩ := ih hl
      exact ⟨t, List.mem_cons_of_mem _ ht, hlt⟩
    · cases hl
      exact ⟨s, List.mem_cons_self, rfl⟩

/-- Below the bucket of a severity only the headings of the others come next. -/
theorem elsewhere_stacked {severities : List Severity} (hs : s ∉ severities) :
    Elsewhere (title s) (r.stacked severities) := by
  intro l hl
  obtain ⟨t, ht, rfl⟩ := exists_heading_of_head?_stacked hl
  refine ⟨fun h => hs ?_, heading_title_ne_item t⟩
  rwa [← title_inj (heading_inj h)]

theorem bucket_eq_of_stacked_eq {severities : List Severity} (hnodup : severities.Nodup)
    (h : r.stacked severities = r'.stacked severities) :
    ∀ s ∈ severities, r.bucket s = r'.bucket s := by
  induction severities with
  | nil => nofun
  | cons s rest ih =>
    obtain ⟨hs, hrest⟩ := List.nodup_cons.1 hnodup
    obtain ⟨hbucket, htail⟩ :=
      bucketLines_append_inj (elsewhere_stacked hs) (elsewhere_stacked hs) h
    intro t ht
    rcases List.mem_cons.1 ht with rfl | ht
    · exact hbucket
    · exact ih hrest htail t ht

theorem lines_eq_stacked (r : Report) :
    r.lines = r.name :: r.stacked [.error, .warning, .info] := by
  rw [stacked, List.flatMap_cons, List.flatMap_cons, List.flatMap_singleton, ← List.append_assoc]
  rfl

theorem eq_of_lines_eq (h : r.lines = r'.lines) :
    r.name = r'.name ∧ ∀ s, r.bucket s = r'.bucket s := by
  rw [lines_eq_stacked, lines_eq_stacked] at h
  obtain ⟨hname, hstacked⟩ := List.cons.inj h
  refine ⟨hname, fun s => bucket_eq_of_stacked_eq (by decide) hstacked s ?_⟩
  cases s <;> decide

theorem length_lines (r : Report) :
    r.lines.length =
      1 + [r.errors, r.warnings, r.info].countP (· ≠ []) +
        (r.errors.length + r.warnings.length + r.info.length) := by
  simp only [lines, List.length_cons, List.length_append, length_bucketLines, List.countP_cons,
    List.countP_nil, decide_eq_true_eq, ne_eq, ite_not]
  omega

theorem Unbroken.lines (h : r.Unbroken) : ∀ l ∈ r.lines, '\n' ∉ l.toList := by
  rw [lines_eq_stacked, List.forall_mem_cons]
  refine ⟨h.name, fun l hl => ?_⟩
  obtain ⟨s, -, hl⟩ := List.mem_flatMap.1 hl
  rcases eq_of_mem_bucketLines hl with rfl | ⟨m, hm, rfl⟩
  · cases s <;> simp [heading, title]
  · simp [item, h.messages s m hm]

end Buckets

/-- Split at its line feeds, the text of a report gives its lines, with nothing behind the last line
feed: one for the name, one for each bucket that holds anything, and one for each message. Two
reports have the same text exactly when they have the same name and the same messages in every
bucket. -/
theorem text_determines_name_and_buckets (hr : r.Unbroken) :
    r.text.toList.splitOn '\n' = r.lines.map String.toList ++ [[]] ∧
    r.lines.length =
      1 + [r.errors, r.warnings, r.info].countP (· ≠ []) +
        (r.errors.length + r.warnings.length + r.info.length) ∧
    ∀ s : Report, s.Unbroken →
      (r.text = s.text ↔ r.name = s.name ∧ r.errors = s.errors ∧ r.warnings = s.warnings ∧
        r.info = s.info) := by
  refine ⟨?_, length_lines r, fun s hs => ⟨fun htext => ?_, ?_⟩⟩
  · rw [text_eq_ended, splitOn_ended hr.lines]
  · rw [text_eq_ended, text_eq_ended] at htext
    obtain ⟨hname, hbucket⟩ := eq_of_lines_eq (ended_inj hr.lines hs.lines htext)
    exact ⟨hname, hbucket .error, hbucket .warning, hbucket .info⟩
  · rintro ⟨hname, herrors, hwarnings, hinfo⟩
    rw [text, text, hname, herrors, hwarnings, hinfo]

/-- The name looks like a heading, and so does a message. -/
def disguised : Report := { name := "  errors:", errors := ["a", "  info:"] }

/-- The heading that is only a message of `disguised`. -/
def plain : Report := { name := "  errors:", errors := ["a"], info := [""] }

theorem disguised_text_ne_plain :
    disguised.Unbroken ∧ plain.Unbroken ∧ disguised.lines.length = 4 ∧
    disguised.text ≠ plain.text := by
  have hdisguised : disguised.Unbroken :=
    ⟨by simp [disguised], fun s => by cases s <;> simp [disguised, bucket]⟩
  have hplain : plain.Unbroken := ⟨by simp [plain], fun s => by cases s <;> simp [plain, bucket]⟩
  obtain ⟨-, hlength, htext⟩ := text_determines_name_and_buckets hdisguised
  refine ⟨hdisguised, hplain, hlength.trans rfl, fun h => ?_⟩
  exact absurd ((htext plain hplain).1 h).2.1 (by decide)

end ProposalVetting.Report
