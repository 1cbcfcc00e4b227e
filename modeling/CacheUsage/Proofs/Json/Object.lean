import CacheUsage.Json.Record
import CacheUsage.Proofs.Json.Reading
import Mathlib.Data.List.Forall2
import Mathlib.Tactic.Common

namespace CacheUsage.Json

variable {α δ : Type}

/-- A member as it is written: its name, a colon, and a value that is written as `V` says. -/
inductive MemberText (V : δ → List Char → Prop) : String × δ → List Char → Prop where
  | intro {name : String} {d : δ} {before raw between after value behind : List Char} :
      Blank before → Spells raw name.toList → Blank between → Blank after → V d value →
      Blank behind → MemberText V (name, d)
        (before ++ '"' :: (raw ++ '"' :: (between ++ ':' :: (after ++ (value ++ behind)))))

inductive ObjectText (V : δ → List Char → Prop) : List (String × δ) → List Char → Prop where
  | empty {b : List Char} : Blank b → ObjectText V [] ('{' :: (b ++ ['}']))
  | members {m : String × δ} {ms : List (String × δ)} {t : List Char} {ts : List (List Char)} :
      MemberText V m t → List.Forall₂ (MemberText V) ms ts →
      ObjectText V (m :: ms) ('{' :: (t ++ (ts.flatMap (',' :: ·) ++ ['}'])))

structure Among (names : List String) (ms : List (String × δ)) : Prop where
  known : ∀ m ∈ ms, m.1 ∈ names
  once : (ms.map Prod.fst).Nodup

theorem Among.next {names : List String} {before ms : List (String × δ)} {m : String × δ}
    (h : Among names (before ++ m :: ms)) : m.1 ∈ names ∧ m.1 ∉ before.map Prod.fst := by
  refine ⟨h.known m (by simp), ?_⟩
  have hnodup := h.once
  rw [List.map_append, List.nodup_append] at hnodup
  exact fun hin => hnodup.2.2 m.1 hin m.1 (by simp) rfl

theorem endsNumber_flatMap (ts : List (List Char)) (s : List Char) :
    EndsNumber (ts.flatMap (',' :: ·) ++ '}' :: s) := by
  cases ts with
  | nil => exact endsNumber_cons _ (by decide)
  | cons t ts => exact endsNumber_cons _ (by decide)

def given (n₁ n₂ n₃ : String) (val : δ → α) (ms : List (String × δ)) : Given α α α :=
  ⟨(ms.lookup n₁).map val, (ms.lookup n₂).map val, (ms.lookup n₃).map val⟩

theorem lookup_eq_none {name : String} {ms : List (String × δ)} (h : name ∉ ms.map Prod.fst) :
    ms.lookup name = none := by
  rw [List.lookup_eq_none_iff]
  intro m hm
  have hne : name ≠ m.1 := fun heq => h (heq ▸ List.mem_map_of_mem hm)
  simpa using hne

theorem lookup_eq_some {name : String} {d : δ} {ms : List (String × δ)}
    (hnodup : (ms.map Prod.fst).Nodup) (h : (name, d) ∈ ms) : ms.lookup name = some d := by
  obtain ⟨before, after, rfl⟩ := List.append_of_mem h
  rw [List.map_append, List.nodup_append] at hnodup
  have hbefore : name ∉ before.map Prod.fst := fun hin => hnodup.2.2 name hin name (by simp) rfl
  simp [List.lookup_append, lookup_eq_none hbefore]

theorem lookup_concat_self {name : String} {ms : List (String × δ)} (d : δ)
    (h : name ∉ ms.map Prod.fst) : (ms ++ [(name, d)]).lookup name = some d := by
  simp [List.lookup_append, lookup_eq_none h]

theorem lookup_concat_of_ne {name other : String} (ms : List (String × δ)) (d : δ)
    (h : other ≠ name) : (ms ++ [(name, d)]).lookup other = ms.lookup other := by
  have hne : (other == name) = false := by simpa using h
  simp [List.lookup_append, List.lookup_cons, hne]

namespace Reader

variable {b b' lead raw s rest value : List Char} {first : Bool} {name : String}

def Leads (first : Bool) (lead : List Char) : Prop :=
  if first then lead = [] else ∃ b, Blank b ∧ lead = b ++ [',']

theorem name?_close (hb : Blank b) : name? first (b ++ '}' :: s) = .ok (none, s) := by
  have hnext : next ('}' :: s) = .ok ('}', s) := rfl
  rw [name?, run_bind (peekToken_eq hb (by decide)), run_bind hnext]
  rfl

theorem name?_eq (hlead : Leads first lead) (hb : Blank b) (h : Spells raw name.toList) :
    name? first (lead ++ (b ++ '"' :: (raw ++ '"' :: s))) = .ok (some name, s) := by
  have hquote : next ('"' :: (raw ++ '"' :: s)) = .ok ('"', raw ++ '"' :: s) := rfl
  have hread : (some <$> text : Reader (Option String)) (raw ++ '"' :: s) = .ok (some name, s) := by
    change (text (raw ++ '"' :: s) >>= _) = _
    rw [text_eq h, String.ofList_toList]
    rfl
  cases first with
  | true =>
    cases hlead
    rw [List.nil_append, name?, run_bind (peekToken_eq hb (by decide)), run_bind hquote,
      if_neg (by decide), if_pos rfl, if_pos rfl]
    exact hread
  | false =>
    obtain ⟨before, hbefore, rfl⟩ := hlead
    have hcomma : next (',' :: (b ++ '"' :: (raw ++ '"' :: s))) =
      .ok (',', b ++ '"' :: (raw ++ '"' :: s)) := rfl
    rw [List.append_assoc, List.singleton_append, name?,
      run_bind (peekToken_eq hbefore (by decide)), run_bind hcomma, if_neg (by decide),
      if_neg (by decide), if_pos rfl, run_bind (token_eq hb (by decide))]
    exact hread

variable {n₁ n₂ n₃ : String} {r : Reader α} {val : δ → α} {d : δ} {before : List (String × δ)}

theorem once_eq {f : Field α} {a : α} (h : Reads f.value value a) (hb : Blank b) (hb' : Blank b')
    (hrest : EndsNumber rest) :
    once f none (b ++ ':' :: (b' ++ (value ++ rest))) = .ok (a, rest) := by
  have hvalue := h b' rest hb' hrest
  rw [once, if_neg (by simp)]
  change (token ':' >>= _) _ = _
  rw [run_bind (token_eq hb (by decide))]
  exact hvalue

theorem recordMember_eq (hnames : [n₁, n₂, n₃].Nodup) (hname : name ∈ [n₁, n₂, n₃])
    (hnew : name ∉ before.map Prod.fst) (h : Reads r value (val d)) (hb : Blank b) (hb' : Blank b')
    (hrest : EndsNumber rest) :
    recordMember ⟨⟨n₁, r⟩, ⟨n₂, r⟩, ⟨n₃, r⟩⟩ name (given n₁ n₂ n₃ val before)
      (b ++ ':' :: (b' ++ (value ++ rest))) =
        .ok (given n₁ n₂ n₃ val (before ++ [(name, d)]), rest) := by
  have hunseen := lookup_eq_none hnew
  have hself := lookup_concat_self d hnew
  have hkeep : ∀ other ≠ name, (before ++ [(name, d)]).lookup other = before.lookup other :=
    fun other hne => lookup_concat_of_ne before d hne
  have hread := once_eq (f := ⟨name, r⟩) h hb hb' hrest
  obtain ⟨⟨h12, h13⟩, h23⟩ : (n₁ ≠ n₂ ∧ n₁ ≠ n₃) ∧ n₂ ≠ n₃ := by simpa using hnames
  simp only [List.mem_cons, List.not_mem_nil, or_false] at hname
  rcases hname with rfl | rfl | rfl
  · have hseen : (given name n₂ n₃ val before).first = none := by simp [given, hunseen]
    rw [recordMember, if_pos rfl, hseen, run_bind hread, given, given, hself, hkeep _ h12.symm,
      hkeep _ h13.symm]
    rfl
  · have hseen : (given n₁ name n₃ val before).second = none := by simp [given, hunseen]
    rw [recordMember, if_neg h12.symm, if_pos rfl, hseen, run_bind hread, given, given, hself,
      hkeep _ h12, hkeep _ h23.symm]
    rfl
  · have hseen : (given n₁ n₂ name val before).third = none := by simp [given, hunseen]
    rw [recordMember, if_neg h13.symm, if_neg h23.symm, if_pos rfl, hseen, run_bind hread, given,
      given, hself, hkeep _ h13, hkeep _ h23]
    rfl

variable {V : δ → List Char → Prop} {m : String × δ} {ms : List (String × δ)} {t : List Char}
  {ts : List (List Char)}

theorem exists_membersStep (hnames : [n₁, n₂, n₃].Nodup) (hval : ∀ d v, V d v → Reads r v (val d))
    (hm : MemberText V m t) (hname : m.1 ∈ [n₁, n₂, n₃]) (hnew : m.1 ∉ before.map Prod.fst)
    (hlead : Leads first lead) (hs : EndsNumber s) :
    ∃ behind, Blank behind ∧ behind.length < t.length ∧
      membersStep (recordMember ⟨⟨n₁, r⟩, ⟨n₂, r⟩, ⟨n₃, r⟩⟩) (first, given n₁ n₂ n₃ val before)
        (lead ++ (t ++ s)) =
          .ok (.inl (false, given n₁ n₂ n₃ val (before ++ [m])), behind ++ s) := by
  cases hm with
  | @intro name d _ _ _ _ value behind hb hraw hbetween hafter hvalue hbehind =>
    refine ⟨behind, hbehind, by simp +arith, ?_⟩
    have hmember := recordMember_eq hnames hname hnew (hval d value hvalue) hbetween hafter
      (hbehind.endsNumber_append hs)
    simp only [List.append_assoc, List.cons_append]
    rw [membersStep, run_bind (name?_eq hlead hb hraw)]
    change (recordMember _ _ _ >>= _) _ = _
    rw [run_bind hmember]
    rfl

theorem runs_members (hnames : [n₁, n₂, n₃].Nodup) (hval : ∀ d v, V d v → Reads r v (val d))
    (hms : List.Forall₂ (MemberText V) ms ts) (hall : Among [n₁, n₂, n₃] (before ++ ms))
    (hb : Blank b) :
    Runs (membersStep (recordMember ⟨⟨n₁, r⟩, ⟨n₂, r⟩, ⟨n₃, r⟩⟩))
      (given n₁ n₂ n₃ val (before ++ ms)) rest (false, given n₁ n₂ n₃ val before)
      (b ++ (ts.flatMap (',' :: ·) ++ '}' :: rest)) := by
  -- The induction is on the members that are still to be read.
  induction hms generalizing before b with
  | nil =>
    rw [List.append_nil]
    refine .finish ?_
    rw [membersStep, List.flatMap_nil, List.nil_append, run_bind (name?_close hb)]
    rfl
  | @cons m t ms ts hm _ ih =>
    obtain ⟨hname, hnew⟩ := hall.next
    have hlead : Leads false (b ++ [',']) := ⟨b, hb, rfl⟩
    obtain ⟨behind, hbehind, hshort, hstep⟩ := exists_membersStep hnames hval hm hname hnew hlead
      (endsNumber_flatMap ts rest)
    have htext : b ++ ((t :: ts).flatMap (',' :: ·) ++ '}' :: rest) =
        (b ++ [',']) ++ (t ++ (ts.flatMap (',' :: ·) ++ '}' :: rest)) := by simp
    rw [List.append_cons] at hall ⊢
    rw [htext]
    exact .advance hstep (by simp only [List.length_append]; omega) (ih hall hbehind)

theorem members_eq (hnames : [n₁, n₂, n₃].Nodup) (hval : ∀ d v, V d v → Reads r v (val d))
    (ho : ObjectText V ms ('{' :: t)) (hall : Among [n₁, n₂, n₃] ms) :
    members (recordMember ⟨⟨n₁, r⟩, ⟨n₂, r⟩, ⟨n₃, r⟩⟩) ⟨none, none, none⟩ (t ++ rest) =
      .ok (given n₁ n₂ n₃ val ms, rest) := by
  apply Runs.iterate_eq_ok
  change Runs _ _ _ (true, given n₁ n₂ n₃ val []) _
  cases ho with
  | empty hb =>
    refine .finish ?_
    rw [membersStep, List.append_assoc, List.singleton_append, run_bind (name?_close hb)]
    rfl
  | @members m ms t ts hm hms =>
    have hfirst : Among [n₁, n₂, n₃] ([] ++ m :: ms) := hall
    have hlater : Among [n₁, n₂, n₃] ([m] ++ ms) := hall
    obtain ⟨hname, hnew⟩ := hfirst.next
    obtain ⟨behind, hbehind, hshort, hstep⟩ := exists_membersStep hnames hval hm hname hnew
      (show Leads true [] from rfl) (endsNumber_flatMap ts rest)
    simp only [List.append_assoc, List.singleton_append]
    have hshorter : (behind ++ (ts.flatMap (',' :: ·) ++ '}' :: rest)).length <
        (t ++ (ts.flatMap (',' :: ·) ++ '}' :: rest)).length := by simpa using hshort
    exact .advance hstep hshorter (runs_members hnames hval hms hlater hbehind)

/-- An object of fields that are each written at most once is read as a record. -/
theorem reads_record (hnames : [n₁, n₂, n₃].Nodup) (hval : ∀ d v, V d v → Reads r v (val d))
    (ho : ObjectText V ms t) (hall : Among [n₁, n₂, n₃] ms) (expected : String) :
    Reads (record ⟨⟨n₁, r⟩, ⟨n₂, r⟩, ⟨n₃, r⟩⟩ expected) t (.object, given n₁ n₂ n₃ val ms) := by
  intro b rest hb _
  obtain ⟨u, rfl⟩ : ∃ u, t = '{' :: u := by
    cases ho with
    | empty _ => exact ⟨_, rfl⟩
    | members _ _ => exact ⟨_, rfl⟩
  have hopen : next ('{' :: (u ++ rest)) = .ok ('{', u ++ rest) := rfl
  rw [record, List.cons_append, run_bind (peekToken_eq hb (by decide))]
  change (next >>= _) _ = _
  rw [run_bind hopen]
  rw [run_bind (members_eq hnames hval ho hall)]
  rfl

end Reader

end CacheUsage.Json
