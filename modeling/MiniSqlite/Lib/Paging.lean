/-
Readers that page.

The first pages through a log while the log grows. It keeps how many entries it has
seen. In each round it finds the log as it then is, and takes the next entries, at
most as many as its limit for that round. What it has received is at any time the log
from where it started, up to where it has come: no entry is missed, repeated or out of
order.

The second pages through a table by key, each time from past the last key it has seen,
until a page comes back short. With distinct keys it has then read the rows past its
first key, in order.

The third does the same while the table changes between its pages. It sees no key twice
and none out of order, and it misses no key that is there at every page.
-/
import Mathlib.Data.List.Basic
import Mathlib.Data.List.Infix
import Mathlib.Data.List.TakeDrop
import Mathlib.Data.Nat.Notation
import MiniSqlite.Lib.Rows

set_option autoImplicit false

namespace Paging

/-! ## Through a log that grows -/

section Log

variable {α : Type}

/-- The pages received from place `c` on. A round is the log it finds and its limit. -/
def pages (c : ℕ) : List (List α × ℕ) → List (List α)
  | [] => []
  | (log, limit) :: rounds =>
    (log.drop c).take limit :: pages (c + ((log.drop c).take limit).length) rounds

variable {rounds : List (List α × ℕ)} {log log' : List α} {c limit : ℕ}

/-- A page is where it was in the log, whatever is appended later. -/
theorem page_eq (h : log <+: log') :
    (log.drop c).take limit = (log'.drop c).take ((log.drop c).take limit).length := by
  have hpage : (log.drop c).take limit <+: log'.drop c :=
    (List.take_prefix _ _).trans (h.drop c)
  exact List.prefix_iff_eq_take.mp hpage

/-- **What has been received is a stretch of the log.** -/
theorem pages_flatten (h : ∀ round ∈ rounds, round.1 <+: log) :
    (pages c rounds).flatten = (log.drop c).take (pages c rounds).flatten.length := by
  induction rounds generalizing c with
  | nil => rfl
  | cons round rounds ih =>
      obtain ⟨found, limit⟩ := round
      have hpage := @page_eq α found log c limit (h _ List.mem_cons_self)
      have hrest := ih (c := c + ((found.drop c).take limit).length)
        fun r hr => h r (List.mem_cons_of_mem _ hr)
      rw [pages, List.flatten_cons, List.length_append, List.take_add, List.drop_drop]
      rw [← hpage, ← hrest]

/-- A last page below its limit is the end of the log. -/
theorem pages_complete (h : ∀ round ∈ rounds, round.1 <+: log)
    (hshort : (pages c (rounds ++ [(log, limit)])).getLast?.any fun page => page.length < limit) :
    (pages c (rounds ++ [(log, limit)])).flatten = log.drop c := by
  -- The induction is on the rounds, the cursor moving past the page each has read.
  induction rounds generalizing c with
  | nil =>
      have hlength : ((log.drop c).take limit).length < limit := by simpa [pages] using hshort
      have hpage : (log.drop c).take limit = log.drop c := by
        rw [List.length_take] at hlength
        exact List.take_of_length_le (by omega)
      rw [List.nil_append, pages, pages, List.flatten_cons, List.flatten_nil, List.append_nil,
        hpage]
  | cons round rounds ih =>
      obtain ⟨found, n⟩ := round
      have hpage := @page_eq α found log c n (h _ List.mem_cons_self)
      have hne : pages (c + ((found.drop c).take n).length) (rounds ++ [(log, limit)]) ≠ [] := by
        rcases rounds with _ | ⟨⟨_, _⟩, _⟩ <;> simp [pages]
      have hrest := ih (c := c + ((found.drop c).take n).length)
        (fun r hr => h r (List.mem_cons_of_mem _ hr)) (by
          rw [List.cons_append, pages, List.getLast?_cons_of_ne_nil hne] at hshort
          exact hshort)
      rw [List.cons_append, pages, List.flatten_cons, hrest, ← List.drop_drop]
      calc (found.drop c).take n ++ (log.drop c).drop ((found.drop c).take n).length
          = (log.drop c).take ((found.drop c).take n).length
              ++ (log.drop c).drop ((found.drop c).take n).length := by rw [← hpage]
        _ = log.drop c := List.take_append_drop _ _

/-- With limits of at least one, every page brings something until the reader has
caught up with what was there at the start. -/
theorem pages_progress (h : ∀ round ∈ rounds, log <+: round.1 ∧ 1 ≤ round.2) :
    min rounds.length (log.length - c) ≤ (pages c rounds).flatten.length := by
  induction rounds generalizing c with
  | nil => exact Nat.zero_le _
  | cons round rounds ih =>
      obtain ⟨found, limit⟩ := round
      obtain ⟨hfound, hlimit⟩ := h _ List.mem_cons_self
      have hle : log.length ≤ found.length := hfound.length_le
      have hpositive : 1 ≤ limit := hlimit
      have hrest := ih (c := c + ((found.drop c).take limit).length)
        fun r hr => h r (List.mem_cons_of_mem _ hr)
      have hlength : ((found.drop c).take limit).length = min limit (found.length - c) := by
        rw [List.length_take, List.length_drop]
      rw [pages, List.flatten_cons, List.length_append, List.length_cons]
      omega

end Log

/-! ## By key -/

section ByKey

open Rows

variable {α κ : Type} [LinearOrder κ] (key : α → κ) (limit : ℕ) (rows : List α)

/-- `SELECT … WHERE key > ?1 ORDER BY key`. -/
def rows_past (last : κ) : List α := orderBy key (rows.filter fun r => last < key r)

/-- `SELECT … WHERE key > ?1 ORDER BY key LIMIT ?2`. -/
def page (last : κ) : List α := (rows_past key rows last).take limit

/-- Where the next page starts: past the last row of this one. -/
def cursor (last : κ) (page : List α) : κ := (page.getLast?.map key).getD last

/-- What is read in at most that many rounds; a short page is the last. -/
def read_pages : ℕ → κ → List α
  | 0, _ => []
  | rounds + 1, last =>
    let found := page key limit rows last
    found ++ if found.length < limit then [] else read_pages rounds (cursor key last found)

variable {key limit rows} {last : κ}

theorem mem_rows_past {r : α} : r ∈ rows_past key rows last ↔ r ∈ rows ∧ last < key r := by
  simp [rows_past]

theorem rows_past_perm {rows' : List α} (hkeyed : Keyed key rows) (h : rows'.Perm rows) :
    rows_past key rows' last = rows_past key rows last :=
  (orderBy_eq_of_perm (hkeyed.filter _) (h.symm.filter _)).symm

/-- Past a later key there is what is left of the rows past an earlier one. -/
theorem rows_past_of_le {last' : κ} (hkeyed : Keyed key rows) (h : last ≤ last') :
    rows_past key rows last' = (rows_past key rows last).filter fun r => last' < key r := by
  have hfilter : (rows.filter fun r => decide (last' < key r))
      = (rows.filter fun r => last < key r).filter fun r => last' < key r := by
    rw [List.filter_filter]
    refine List.filter_congr fun r _ => ?_
    by_cases hr : last' < key r
    · simp [hr, lt_of_le_of_lt h hr]
    · simp [hr]
  have hsorted := orderBy_sorted key (rows.filter fun r => last < key r)
  unfold rows_past
  rw [hfilter]
  refine List.Perm.eq_of_pairwise ?_ (orderBy_sorted _ _) (hsorted.filter _)
    ((orderBy_perm _ _).trans ((orderBy_perm _ _).symm.filter _))
  intro a b ha hb hab hba
  have hmem : ∀ c, c ∈ (rows.filter fun r => last < key r).filter (fun r => last' < key r) →
      c ∈ rows := fun c hc => List.mem_of_mem_filter (List.mem_of_mem_filter hc)
  refine hkeyed.eq (hmem a (mem_orderBy.mp ha)) ?_ (le_antisymm hab hba)
  exact (mem_rows_past.mp (List.mem_of_mem_filter hb)).1

/-- The rows past a key come with increasing keys. -/
theorem rows_past_strict (hkeyed : Keyed key rows) (last : κ) :
    (rows_past key rows last).Pairwise fun a b => key a < key b :=
  List.pairwise_map.mp (orderBy_strict (hkeyed.filter fun r => last < key r))

/-- **A page and what is past its cursor are the rows past the last one.** -/
theorem page_append_rest (hkeyed : Keyed key rows) (limit : ℕ) (last : κ) :
    page key limit rows last ++ rows_past key rows (cursor key last (page key limit rows last))
      = rows_past key rows last := by
  have hstrict := rows_past_strict hkeyed last
  have hcut : page key limit rows last ++ (rows_past key rows last).drop limit
      = rows_past key rows last := List.take_append_drop limit _
  rcases hlast : (page key limit rows last).getLast? with _ | r
  · have hempty := List.getLast?_eq_none_iff.mp hlast
    rw [hempty, cursor]
    rfl
  · have hcursor : cursor key last (page key limit rows last) = key r := by
      rw [cursor, hlast]
      rfl
    obtain ⟨front, hfront⟩ : ∃ front, page key limit rows last = front ++ [r] :=
      List.getLast?_eq_some_iff.mp hlast
    have hr : last < key r := by
      have hmem : r ∈ page key limit rows last := List.mem_of_getLast? hlast
      exact (mem_rows_past.mp (List.mem_of_mem_take hmem)).2
    rw [← hcut, List.pairwise_append, hfront, List.pairwise_append] at hstrict
    obtain ⟨⟨-, -, hbefore⟩, -, hafter⟩ := hstrict
    -- Everything up to `r` is no longer past it, everything behind it is.
    have hdone : (page key limit rows last).filter (fun x => key r < key x) = [] := by
      refine List.filter_eq_nil_iff.mpr fun x hx => ?_
      rw [hfront, List.mem_append, List.mem_singleton] at hx
      rcases hx with hx | rfl
      · simpa using le_of_lt (hbefore x hx r (List.mem_singleton_self r))
      · simp
    have hleft : ((rows_past key rows last).drop limit).filter (fun x => key r < key x)
        = (rows_past key rows last).drop limit := by
      refine List.filter_eq_self.mpr fun x hx => ?_
      simpa using hafter r (List.mem_append_right _ (List.mem_singleton_self r)) x hx
    rw [hcursor, rows_past_of_le hkeyed (le_of_lt hr)]
    calc page key limit rows last ++ (rows_past key rows last).filter (fun x => key r < key x)
        = page key limit rows last
            ++ (page key limit rows last ++ (rows_past key rows last).drop limit).filter
              (fun x => key r < key x) := by rw [hcut]
      _ = page key limit rows last ++ (rows_past key rows last).drop limit := by
          rw [List.filter_append, hdone, hleft, List.nil_append]
      _ = rows_past key rows last := hcut

/-- **With distinct keys and rounds enough, what is read is the rows past the key.** -/
theorem read_pages_eq (hkeyed : Keyed key rows) (hlimit : 0 < limit) {rounds : ℕ}
    (h : (rows_past key rows last).length < rounds) :
    read_pages key limit rows rounds last = rows_past key rows last := by
  induction rounds generalizing last with
  | zero => cases h
  | succ rounds ih =>
      have happend := page_append_rest hkeyed limit last
      rw [read_pages]
      by_cases hshort : (page key limit rows last).length < limit
      · have hall : page key limit rows last = rows_past key rows last := by
          rw [page, List.length_take] at hshort
          exact List.take_of_length_le (by omega)
        simp only [if_pos hshort, List.append_nil]
        exact hall
      · have hlength := congrArg List.length happend
        rw [List.length_append] at hlength
        simp only [if_neg hshort]
        rw [ih (by omega)]
        exact happend

end ByKey

/-! ## By key, while the table changes -/

section Changing

open Rows

variable {α κ : Type} [LinearOrder κ]

/-- `found` is a page of the rows past `last`: they begin with it, and a short page is all
of them. -/
structure IsPage (key : α → κ) (limit : ℕ) (rows : List α) (last : κ) (found : List α) : Prop where
  beginning : found <+: rows_past key rows last
  short : found.length < limit → found = rows_past key rows last

/-- A reader that starts past `last` got these pages out of these tables. -/
inductive Reads (key : α → κ) (limit : ℕ) : κ → List (List α) → List (List α) → Prop
  | done (last : κ) : Reads key limit last [] []
  | page {last : κ} {rows found : List α} {tables pages : List (List α)}
      (head : IsPage key limit rows last found)
      (rest : Reads key limit (cursor key last found) tables pages) :
      Reads key limit last (rows :: tables) (found :: pages)

variable {key : α → κ} {limit : ℕ} {last : κ} {rows found : List α} {tables pages : List (List α)}

theorem isPage_page (limit : ℕ) (rows : List α) (last : κ) :
    IsPage key limit rows last (page key limit rows last) where
  beginning := List.take_prefix _ _
  short := by
    intro hshort
    rw [page, List.length_take] at hshort
    exact List.take_of_length_le (by omega)

namespace IsPage

theorem mem (h : IsPage key limit rows last found) {r : α} (hr : r ∈ found) :
    r ∈ rows ∧ last < key r :=
  mem_rows_past.mp (h.beginning.subset hr)

theorem strict (h : IsPage key limit rows last found) (hkeyed : Keyed key rows) :
    found.Pairwise fun a b => key a < key b :=
  (rows_past_strict hkeyed last).sublist h.beginning.sublist

/-- The cursor of a page is the key of its last row, or where it started. -/
theorem cursor_eq (h : IsPage key limit rows last found) (hkeyed : Keyed key rows) :
    last ≤ cursor key last found ∧ ∀ r ∈ found, key r ≤ cursor key last found := by
  rcases List.eq_nil_or_concat' found with rfl | ⟨front, r, rfl⟩
  · exact ⟨le_rfl, fun r hr => absurd hr List.not_mem_nil⟩
  · have hcursor : cursor key last (front ++ [r]) = key r := by
      rw [cursor, List.getLast?_concat]
      rfl
    have hstrict := h.strict hkeyed
    rw [List.pairwise_append] at hstrict
    rw [hcursor]
    refine ⟨(h.mem (List.mem_append_right _ (List.mem_singleton_self r))).2.le, fun x hx => ?_⟩
    rcases List.mem_append.mp hx with hx | hx
    · exact (hstrict.2.2 x hx r (List.mem_singleton_self r)).le
    · rw [List.mem_singleton.mp hx]

/-- A row past the start that is not on the page is past its cursor. -/
theorem past_cursor (h : IsPage key limit rows last found) (hkeyed : Keyed key rows) {r : α}
    (hr : r ∈ rows) (hlast : last < key r) (hnot : r ∉ found) : cursor key last found < key r := by
  obtain ⟨rest, hsplit⟩ := h.beginning
  have hstrict := rows_past_strict hkeyed last
  rw [← hsplit, List.pairwise_append] at hstrict
  have hrest : r ∈ rest := by
    have hmem := mem_rows_past.mpr ⟨hr, hlast⟩
    rw [← hsplit] at hmem
    exact (List.mem_append.mp hmem).resolve_left hnot
  rcases hend : found.getLast? with _ | x
  · rw [cursor, hend]
    exact hlast
  · rw [cursor, hend]
    exact hstrict.2.2 x (List.mem_of_getLast? hend) r hrest

/-- What is past the cursor is what the page leaves. -/
theorem append_rest (h : IsPage key limit rows last found) (hkeyed : Keyed key rows) :
    found ++ rows_past key rows (cursor key last found) = rows_past key rows last := by
  have hpage : page key found.length rows last = found :=
    (List.prefix_iff_eq_take.mp h.beginning).symm
  have happend := page_append_rest hkeyed found.length last
  rwa [hpage] at happend

end IsPage

namespace Reads

/-- **Keys come in increasing order**, so none comes twice, and none is out of a table. -/
theorem increasing (h : Reads key limit last tables pages)
    (hkeyed : ∀ rows ∈ tables, Keyed key rows) :
    (pages.flatten.map key).Pairwise (· < ·) ∧ ∀ r ∈ pages.flatten, last < key r := by
  induction h with
  | done _ => exact ⟨List.Pairwise.nil, fun r hr => absurd hr List.not_mem_nil⟩
  | @page last rows found tables pages head rest ih =>
      obtain ⟨hrows, htables⟩ := List.forall_mem_cons.mp hkeyed
      obtain ⟨hincreasing, hpast⟩ := ih htables
      obtain ⟨hle, hbelow⟩ := head.cursor_eq hrows
      rw [List.flatten_cons]
      constructor
      · rw [List.map_append, List.pairwise_append]
        refine ⟨List.pairwise_map.mpr (head.strict hrows), hincreasing, ?_⟩
        intro k hk k' hk'
        obtain ⟨r, hr, rfl⟩ := List.mem_map.mp hk
        obtain ⟨r', hr', rfl⟩ := List.mem_map.mp hk'
        exact lt_of_le_of_lt (hbelow r hr) (hpast r' hr')
      · intro r hr
        rcases List.mem_append.mp hr with hr | hr
        · exact (head.mem hr).2
        · exact lt_of_le_of_lt hle (hpast r hr)

/-- What a reader gets was in one of the tables. -/
theorem mem (h : Reads key limit last tables pages) {r : α} (hr : r ∈ pages.flatten) :
    ∃ rows ∈ tables, r ∈ rows := by
  induction h with
  | done _ => cases hr
  | @page last rows found tables pages head rest ih =>
      rw [List.flatten_cons] at hr
      rcases List.mem_append.mp hr with hr | hr
      · exact ⟨rows, List.mem_cons_self, (head.mem hr).1⟩
      · obtain ⟨rows', hrows', hr⟩ := ih hr
        exact ⟨rows', List.mem_cons_of_mem _ hrows', hr⟩

/-- Behind a page that is not the last there are more, and theirs is the last. -/
theorem getLast_rest
    (hlast : ((found :: pages).getLast?.any fun page => page.length < limit) = true)
    (hlong : ¬ found.length < limit) :
    (pages.getLast?.any fun page => page.length < limit) = true := by
  rcases pages with _ | ⟨page, pages⟩
  · rw [List.getLast?_singleton, Option.any_some, decide_eq_true_eq] at hlast
    exact absurd hlast hlong
  · rwa [List.getLast?_cons_cons] at hlast

/-- **A reader that came to a short page has every key that was in all tables.** -/
theorem complete (h : Reads key limit last tables pages) (hkeyed : ∀ rows ∈ tables, Keyed key rows)
    (hlast : (pages.getLast?.any fun page => page.length < limit) = true) {k : κ} (hk : last < k)
    (hall : ∀ rows ∈ tables, ∃ r ∈ rows, key r = k) : ∃ r ∈ pages.flatten, key r = k := by
  induction h with
  | done _ => cases hlast
  | @page last rows found tables pages head rest ih =>
      obtain ⟨hrows, htables⟩ := List.forall_mem_cons.mp hkeyed
      obtain ⟨⟨r, hr, rfl⟩, hrest⟩ := List.forall_mem_cons.mp hall
      by_cases hfound : r ∈ found
      · exact ⟨r, List.mem_append_left _ hfound, rfl⟩
      · have hlong : ¬ found.length < limit := by
          intro hshort
          rw [head.short hshort] at hfound
          exact hfound (mem_rows_past.mpr ⟨hr, hk⟩)
        obtain ⟨r', hr', hsame⟩ := ih htables (getLast_rest hlast hlong)
          (head.past_cursor hrows hr hk hfound) hrest
        exact ⟨r', List.mem_append_right _ hr', hsame⟩

/-- **While the table keeps its rows, a reader gets the rows past its start.** -/
theorem unchanged (h : Reads key limit last tables pages) (hkeyed : Keyed key rows)
    (hsame : ∀ table ∈ tables, table.Perm rows)
    (hlast : (pages.getLast?.any fun page => page.length < limit) = true) :
    pages.flatten = rows_past key rows last := by
  induction h with
  | done _ => cases hlast
  | @page last table found tables pages head rest ih =>
      obtain ⟨htable, htables⟩ := List.forall_mem_cons.mp hsame
      have hkeyed' : ∀ rows' ∈ table :: tables, Keyed key rows' := fun rows' hrows' =>
        ((hsame rows' hrows').map key).nodup_iff.mpr hkeyed
      have happend := head.append_rest (hkeyed' table List.mem_cons_self)
      rw [rows_past_perm hkeyed htable, rows_past_perm hkeyed htable] at happend
      rw [List.flatten_cons]
      by_cases hshort : found.length < limit
      · -- Behind a short page there is nothing left to read.
        have hall : found = rows_past key rows last := by
          rw [← rows_past_perm hkeyed htable]
          exact head.short hshort
        have hend : rows_past key rows (cursor key last found) = [] := by
          rwa [← hall, List.append_right_eq_self] at happend
        have hnone : pages.flatten = [] := by
          refine List.eq_nil_iff_forall_not_mem.mpr fun r hr => ?_
          obtain ⟨rows', hrows', hmem⟩ := rest.mem hr
          have hpast := (rest.increasing fun t ht => hkeyed' t (List.mem_cons_of_mem _ ht)).2 r hr
          have hrow := mem_rows_past.mpr ⟨(htables rows' hrows').mem_iff.mp hmem, hpast⟩
          rw [hend] at hrow
          cases hrow
        rw [hnone, List.append_nil, hall]
      · rw [ih htables (getLast_rest hlast hshort)]
        exact happend

end Reads

/-! A reader of a machine: before each fetch the machine moves on, and after a short page the
reader stops. A fetch is the state it finds and the page it gets. -/

section Reader

variable {σ ι γ : Type} (advance : σ → ι → σ) (fetch : γ → σ → List α) (next : γ → List α → γ)

def fetches (limit : ℕ) (s : σ) (c : γ) : List ι → List (σ × List α)
  | [] => []
  | i :: rounds =>
    let s' := advance s i
    let found := fetch c s'
    (s', found) :: if found.length < limit then [] else fetches limit s' (next c found) rounds

variable {advance fetch next}

/-- **The reader reads by key**, when its fetches are pages of the table and its cursor goes
where the keys of a page end. -/
theorem reads_fetches (I : σ → Prop) (table : σ → List α) (place : γ → κ)
    (hstep : ∀ s i, I s → I (advance s i))
    (hpage : ∀ s c, I s → IsPage key limit (table s) (place c) (fetch c s))
    (hnext : ∀ s c, I s → place (next c (fetch c s)) = cursor key (place c) (fetch c s)) {s : σ}
    (hs : I s) (c : γ) (rounds : List ι) :
    Reads key limit (place c)
      ((fetches advance fetch next limit s c rounds).map fun f => table f.1)
      ((fetches advance fetch next limit s c rounds).map Prod.snd) := by
  induction rounds generalizing s c with
  | nil => exact .done _
  | cons i rounds ih =>
      have hs' := hstep s i hs
      refine .page (hpage _ c hs') ?_
      split
      · exact .done _
      · rw [← hnext _ c hs']
        exact ih hs' (next c (fetch c (advance s i)))

/-- A fetch finds the machine where the rounds up to it have brought it. -/
theorem mem_fetches {s : σ} {c : γ} {rounds : List ι} {f : σ × List α}
    (h : f ∈ fetches advance fetch next limit s c rounds) : (∃ c', f.2 = fetch c' f.1) ∧
      ∃ i done left, rounds = i :: done ++ left ∧ f.1 = (i :: done).foldl advance s := by
  induction rounds generalizing s c with
  | nil => cases h
  | cons i rounds ih =>
      rcases List.mem_cons.mp h with rfl | h
      · exact ⟨⟨c, rfl⟩, i, [], rounds, rfl, rfl⟩
      · split at h
        · cases h
        · obtain ⟨hpage, j, done, left, rfl, hf⟩ := ih h
          exact ⟨hpage, i, j :: done, left, rfl, hf⟩

end Reader

end Changing

end Paging
