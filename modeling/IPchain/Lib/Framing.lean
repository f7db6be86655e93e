import Mathlib.Data.List.Basic
import Mathlib.Data.List.Infix

/-! Text that arrives in pieces and is taken out of a buffer in whole lines. -/

namespace IPchain.Lib

section Lines

variable {α : Type*} [DecidableEq α] {cr lf : α}

/-- The lines of a text that continues `line`. Both characters end a line, and the two together
end one line. -/
def linesFrom (cr lf : α) (line : List α) : List α → List (List α)
  | [] => if line = [] then [] else [line]
  | [c] => if c = cr ∨ c = lf then [line] else [line ++ [c]]
  | c :: d :: text =>
      if c = cr ∧ d = lf then line :: linesFrom cr lf [] text
      else if c = cr ∨ c = lf then line :: linesFrom cr lf [] (d :: text)
      else linesFrom cr lf (line ++ [c]) (d :: text)

def splitlines (cr lf : α) (text : List α) : List (List α) := linesFrom cr lf [] text

@[simp] theorem linesFrom_nil : linesFrom cr lf [] ([] : List α) = [] := rfl

theorem linesFrom_lf (distinct : cr ≠ lf) (line text : List α) :
    linesFrom cr lf line (lf :: text) = line :: linesFrom cr lf [] text := by
  cases text with
  | nil => simp [linesFrom]
  | cons c text =>
      rw [linesFrom, if_neg (fun both => distinct both.1.symm), if_pos (Or.inr rfl)]

theorem linesFrom_break (line text : List α) :
    linesFrom cr lf line (cr :: lf :: text) = line :: linesFrom cr lf [] text := by
  rw [linesFrom, if_pos ⟨rfl, rfl⟩]

theorem linesFrom_cr {c : α} (other : c ≠ lf) (line text : List α) :
    linesFrom cr lf line (cr :: c :: text) = line :: linesFrom cr lf [] (c :: text) := by
  rw [linesFrom, if_neg (fun both => other both.2), if_pos (Or.inl rfl)]

theorem linesFrom_other {c : α} (notCr : c ≠ cr) (notLf : c ≠ lf) (line : List α) (d : α)
    (text : List α) :
    linesFrom cr lf line (c :: d :: text) = linesFrom cr lf (line ++ [c]) (d :: text) := by
  rw [linesFrom, if_neg (fun both => notCr both.1), if_neg (fun one => one.elim notCr notLf)]

theorem linesFrom_append (distinct : cr ≠ lf) (line first rest : List α) :
    linesFrom cr lf line (first ++ lf :: rest) =
      linesFrom cr lf line (first ++ [lf]) ++ linesFrom cr lf [] rest := by
  induction hlen : first.length using Nat.strongRecOn generalizing first line with
  | ind size ih =>
      cases first with
      | nil =>
          simp only [List.nil_append, linesFrom_lf distinct, linesFrom_nil, List.singleton_append]
      | cons c first =>
          have next (line : List α) := ih first.length (by simp [← hlen]) line first rfl
          by_cases isLf : c = lf
          · subst isLf
            simp only [List.cons_append, linesFrom_lf distinct, next]
          by_cases isCr : c = cr
          · subst isCr
            cases first with
            | nil =>
                simp only [List.cons_append, List.nil_append, linesFrom_break, linesFrom_nil]
            | cons d first =>
                by_cases pair : d = lf
                · subst pair
                  have shorter : first.length < size := by
                    rw [← hlen, List.length_cons, List.length_cons]
                    omega
                  have behind := ih first.length shorter [] first rfl
                  simp only [List.cons_append, linesFrom_break, behind]
                · simp only [List.cons_append, linesFrom_cr pair]
                  rw [← List.cons_append, next, List.cons_append]
          · cases first with
            | nil =>
                have here := next (line ++ [c])
                simp only [List.cons_append, List.nil_append] at here ⊢
                rw [linesFrom_other isCr isLf, linesFrom_other isCr isLf, here]
            | cons d first =>
                have here := next (line ++ [c])
                simp only [List.cons_append] at here ⊢
                rw [linesFrom_other isCr isLf, linesFrom_other isCr isLf, here]

theorem splitlines_append (distinct : cr ≠ lf) {first : List α} (ended : [cr, lf] <:+ first)
    (rest : List α) :
    splitlines cr lf (first ++ rest) = splitlines cr lf first ++ splitlines cr lf rest := by
  obtain ⟨start, rfl⟩ := ended
  have split := linesFrom_append distinct [] (start ++ [cr]) rest
  simpa [splitlines] using split

end Lines

section Buffers

variable {α β σ : Type*}

/-- A reader takes all that is in the buffer when it is complete, and else nothing. -/
structure Reader (α β : Type*) where
  complete : List α → Bool
  lines : List α → List β
  complete_nil : complete [] = false
  complete_append : ∀ {first rest}, complete first →
    (complete (first ++ rest) ↔ rest = [] ∨ complete rest)
  lines_nil : lines [] = []
  lines_append : ∀ {first}, complete first →
    ∀ rest, lines (first ++ rest) = lines first ++ lines rest

/-- What is buffered, what has been taken out of it, and what has become of that. -/
@[ext] structure Reading (α β σ : Type*) where
  buffer : List α
  processed : List β
  state : σ

def Reading.start (state : σ) : Reading α β σ := ⟨[], [], state⟩

namespace Reader

variable (r : Reader α β) (process : β → σ → σ)

def receive (data : List α) (s : Reading α β σ) : Reading α β σ :=
  if r.complete (s.buffer ++ data) then
    { buffer := []
      processed := s.processed ++ r.lines (s.buffer ++ data)
      state := (r.lines (s.buffer ++ data)).foldl (fun s line => process line s) s.state }
  else { s with buffer := s.buffer ++ data }

def receiveAll (pieces : List (List α)) (s : Reading α β σ) : Reading α β σ :=
  pieces.foldl (fun s data => r.receive process data s) s

/-- Of what has been received, `taken` has gone through the loop. -/
structure Follows (first : σ) (received taken : List α) (s : Reading α β σ) : Prop where
  split : received = taken ++ s.buffer
  whole : taken = [] ∨ r.complete taken
  unread : r.complete s.buffer = false
  processed : s.processed = r.lines taken
  state : s.state = s.processed.foldl (fun s line => process line s) first

variable {r process} {first : σ} {received taken : List α} {s : Reading α β σ}

variable (r process first) in
theorem follows_start : r.Follows process first [] [] (.start first) where
  split := rfl
  whole := Or.inl rfl
  unread := r.complete_nil
  processed := r.lines_nil.symm
  state := rfl

theorem complete_taken (whole : taken = [] ∨ r.complete taken) {rest : List α}
    (complete : r.complete rest) : r.complete (taken ++ rest) := by
  rcases whole with rfl | whole
  · exact complete
  · exact (r.complete_append whole).mpr (Or.inr complete)

theorem lines_taken (whole : taken = [] ∨ r.complete taken) (rest : List α) :
    r.lines (taken ++ rest) = r.lines taken ++ r.lines rest := by
  rcases whole with rfl | whole
  · rw [List.nil_append, r.lines_nil, List.nil_append]
  · exact r.lines_append whole rest

theorem Follows.receive (follows : r.Follows process first received taken s) (data : List α) :
    ∃ taken, r.Follows process first (received ++ data) taken (r.receive process data s) := by
  have split : received ++ data = taken ++ (s.buffer ++ data) := by
    rw [follows.split, List.append_assoc]
  by_cases complete : r.complete (s.buffer ++ data)
  · refine ⟨taken ++ (s.buffer ++ data), ?_⟩
    simp only [Reader.receive, complete, if_true]
    constructor
    · rw [split, List.append_nil]
    · exact Or.inr (complete_taken follows.whole complete)
    · exact r.complete_nil
    · rw [follows.processed, lines_taken follows.whole]
    · rw [List.foldl_append, ← follows.state]
  · refine ⟨taken, ?_⟩
    simp only [Reader.receive, complete, Bool.false_eq_true, if_false]
    exact ⟨split, follows.whole, by simpa using complete, follows.processed, follows.state⟩

theorem Follows.receiveAll (follows : r.Follows process first received taken s)
    (pieces : List (List α)) :
    ∃ taken, r.Follows process first (received ++ pieces.flatten) taken
      (r.receiveAll process pieces s) := by
  induction pieces generalizing received taken s with
  | nil => exact ⟨taken, by simpa [Reader.receiveAll] using follows⟩
  | cons data pieces ih =>
      obtain ⟨next, step⟩ := follows.receive data
      obtain ⟨last, rest⟩ := ih step
      refine ⟨last, ?_⟩
      rwa [List.append_assoc, ← List.flatten_cons] at rest

theorem Follows.lines (follows : r.Follows process first received taken s) :
    s.processed ++ r.lines s.buffer = r.lines received := by
  rw [follows.split, follows.processed, lines_taken follows.whole]

theorem Follows.emptied (follows : r.Follows process first received taken s)
    (complete : received = [] ∨ r.complete received) : s.buffer = [] := by
  rcases complete with rfl | complete
  · exact (List.append_eq_nil_iff.mp follows.split.symm).2
  rw [follows.split] at complete
  rcases follows.whole with rfl | whole
  · rw [List.nil_append, follows.unread] at complete
    cases complete
  · rcases (r.complete_append whole).mp complete with empty | full
    · exact empty
    · rw [follows.unread] at full
      cases full

theorem Follows.unique {taken' : List α} {s' : Reading α β σ}
    (one : r.Follows process first received taken s)
    (two : r.Follows process first received taken' s')
    (complete : received = [] ∨ r.complete received) : s = s' := by
  have emptied := one.emptied complete
  have emptied' := two.emptied complete
  have processed : s.processed = s'.processed := by
    have lines := one.lines.trans two.lines.symm
    rwa [emptied, emptied', r.lines_nil, List.append_nil, List.append_nil] at lines
  ext1
  · rw [emptied, emptied']
  · exact processed
  · rw [one.state, two.state, processed]

theorem receiveAll_flatten (pieces : List (List α))
    (complete : pieces.flatten = [] ∨ r.complete pieces.flatten) :
    r.receiveAll process pieces (.start first) =
      r.receiveAll process [pieces.flatten] (.start first) := by
  obtain ⟨_, many⟩ := (follows_start r process first).receiveAll pieces
  obtain ⟨_, one⟩ := (follows_start r process first).receiveAll [pieces.flatten]
  rw [List.flatten_singleton] at one
  exact many.unique one (by simpa using complete)

end Reader

end Buffers

end IPchain.Lib
