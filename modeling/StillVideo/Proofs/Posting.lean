import Mathlib.Logic.Function.Basic
import StillVideo.Proofs.LoggedEvents
import StillVideo.Proofs.Moves

/-!
# Posts at any interleaving

Whoever has something to post looks at the token first and posts then, while anybody may leave.
`Posting.move?` is one uninterrupted move: a look, a post that a look has let through, or somebody
leaving. A post can so be made after somebody has left, but each poster has at most one post that
was let through before and is still to be made, and no look lets a further one through
(`Posting.respects`).
-/

namespace StillVideo.Dashboard

/-- The token, what each poster is about to post, and what has been posted, the latest last. -/
structure Posting where
  cancelled : Bool
  about : Poster → Option Post
  made : List (Poster × Post)

/-- The posts of one poster in order. -/
def ofPoster (who : Poster) (posts : List (Poster × Post)) : List Post :=
  (posts.filter (·.1 = who)).map Prod.snd

namespace Posting

open Moves

/-- What is done without being interrupted: the next request is taken, or somebody posts. -/
inductive Move
  | take (r : Request)
  | post (who : Poster)

/-- Nothing has been posted. -/
def start (cancelled : Bool) : Posting := ⟨cancelled, fun _ => none, []⟩

/-- With another post that a poster is about to make, or none. -/
def withAbout (s : Posting) (who : Poster) (post : Option Post) : Posting :=
  { s with about := Function.update s.about who post }

/-- A move, if it is possible. A poster only looks when its last post has been made. -/
def move? (s : Posting) : Move → Option Posting
  | .take .quit => some { s with cancelled := true }
  | .take (.look who post) =>
    match s.about who with
    | none => some (if s.cancelled then s else s.withAbout who (some post))
    | some _ => none
  | .post who =>
    match s.about who with
    | none => none
    | some post => some { s.withAbout who none with made := s.made ++ [(who, post)] }

/-- The requests that are taken by moves. -/
def taken (moves : List Move) : List Request :=
  moves.filterMap fun
    | .take r => some r
    | .post _ => none

variable {s t : Posting} {moves more : List Move} {move : Move} {cancelled : Bool}

theorem about_withAbout_self (s : Posting) (who : Poster) (post : Option Post) :
    (s.withAbout who post).about who = post := by
  simp [withAbout]

theorem about_withAbout_of_ne {who who' : Poster} {post : Option Post} (h : who' ≠ who) :
    (s.withAbout who post).about who' = s.about who' := by
  simp [withAbout, h]

/-- All that a move can do. -/
inductive Happens (s : Posting) : Move → Posting → Prop
  | quit : Happens s (.take .quit) { s with cancelled := true }
  | lookInTime {who post} : s.about who = none → s.cancelled = false →
      Happens s (.take (.look who post)) (s.withAbout who (some post))
  | lookLate {who post} : s.about who = none → s.cancelled = true →
      Happens s (.take (.look who post)) s
  | post {who post} : s.about who = some post →
      Happens s (.post who) { s.withAbout who none with made := s.made ++ [(who, post)] }

theorem happens_of_move (h : s.move? move = some t) : Happens s move t := by
  match move with
  | .take .quit => exact Option.some.inj h ▸ .quit
  | .take (.look who post) =>
    unfold move? at h
    dsimp only at h
    split at h
    · rename_i hfree
      obtain rfl := Option.some.inj h
      cases hcancelled : s.cancelled with
      | true => exact .lookLate hfree hcancelled
      | false => exact .lookInTime hfree hcancelled
    · exact absurd h (by simp)
  | .post who =>
    unfold move? at h
    dsimp only at h
    split at h
    · exact absurd h (by simp)
    · rename_i hpost
      exact Option.some.inj h ▸ .post hpost

theorem taken_append (moves more : List Move) : taken (moves ++ more) = taken moves ++ taken more :=
  List.filterMap_append

theorem ofPoster_append (who : Poster) (posts more : List (Poster × Post)) :
    ofPoster who (posts ++ more) = ofPoster who posts ++ ofPoster who more := by
  unfold ofPoster
  rw [List.filter_append, List.map_append]

/-! ## What has been let through -/

/-- What holds after moves: the token tells whether somebody has left, and of what looks have let
through, a poster has made all but the post that it is about to make. -/
structure Kept (cancelled : Bool) (moves : List Move) (s : Posting) : Prop where
  token : s.cancelled = (cancelled || (taken moves).any Request.isQuit)
  posts : ∀ who, ofPoster who s.made ++ (s.about who).toList =
    ofPoster who (admitted cancelled (taken moves))

theorem kept_start (cancelled : Bool) : Kept cancelled [] (start cancelled) :=
  ⟨(Bool.or_false _).symm, fun _ => rfl⟩

theorem Kept.step (hk : Kept cancelled moves s) (hmove : s.move? move = some t) :
    Kept cancelled (moves ++ [move]) t := by
  have hadmitted : ∀ r, move = .take r → taken (moves ++ [move]) = taken moves ++ [r] ∧
      admitted cancelled (taken (moves ++ [move])) =
        admitted cancelled (taken moves) ++ admitted s.cancelled [r] := by
    rintro r rfl
    have htaken : taken (moves ++ [.take r]) = taken moves ++ [r] := taken_append moves _
    exact ⟨htaken, by rw [htaken, admitted_append, hk.token]⟩
  cases happens_of_move hmove with
  | quit =>
    obtain ⟨htaken, hposts⟩ := hadmitted _ rfl
    refine ⟨?_, fun who => ?_⟩
    · rw [htaken, List.any_append, ← Bool.or_assoc]
      exact (Bool.or_true _).symm
    · rw [hposts, ofPoster_append]
      exact (hk.posts who).trans (List.append_nil _).symm
  | @lookInTime who post hfree hcancelled =>
    obtain ⟨htaken, hposts⟩ := hadmitted _ rfl
    refine ⟨?_, fun who' => ?_⟩
    · rw [htaken, List.any_append, ← Bool.or_assoc, ← hk.token]
      exact (Bool.or_false _).symm
    · rw [hposts, ofPoster_append, ← hk.posts who', hcancelled]
      by_cases hwho : who' = who
      · subst hwho
        rw [hfree, about_withAbout_self]
        simp [withAbout, ofPoster, admitted]
      · rw [about_withAbout_of_ne hwho]
        simp [withAbout, ofPoster, admitted, Ne.symm hwho]
  | @lookLate who post hfree hcancelled =>
    obtain ⟨htaken, hposts⟩ := hadmitted _ rfl
    refine ⟨?_, fun who' => ?_⟩
    · rw [htaken, List.any_append, ← Bool.or_assoc, ← hk.token]
      exact (Bool.or_false _).symm
    · rw [hposts, ofPoster_append, hcancelled, admitted_true]
      exact (hk.posts who').trans (List.append_nil _).symm
  | @post who post hpost =>
    have htaken : taken (moves ++ [.post who]) = taken moves :=
      (taken_append moves _).trans (List.append_nil _)
    refine ⟨by rw [htaken]; exact hk.token, fun who' => ?_⟩
    rw [htaken, ← hk.posts who']
    by_cases hwho : who' = who
    · subst hwho
      simp [ofPoster, withAbout, hpost]
    · simp [ofPoster, withAbout, Ne.symm hwho, Function.update_of_ne hwho]

theorem kept_of_run (h : run? move? (start cancelled) moves = some s) : Kept cancelled moves s :=
  invariant Kept.step (kept_start cancelled) h

/-! ## What is posted late -/

/-- The posts that are made from a state on: those which somebody was about to make there, each
poster at most one. -/
structure Late (s : Posting) (posts : List (Poster × Post)) : Prop where
  once : (posts.map Prod.fst).Nodup
  about : ∀ p ∈ posts, s.about p.1 = some p.2

/-- A later state of cancelled work, at which these late posts have been made: who has made one is
not about to make another. -/
structure Lags (s t : Posting) (posts : List (Poster × Post)) : Prop where
  made : t.made = s.made ++ posts
  late : s.Late posts
  cancelled : t.cancelled = true
  about : ∀ who, t.about who = if who ∈ posts.map Prod.fst then none else s.about who

theorem lags_self (h : s.cancelled = true) : s.Lags s [] :=
  ⟨(List.append_nil _).symm, ⟨List.nodup_nil, List.forall_mem_nil _⟩, h, by simp⟩

theorem Lags.step {late : List (Poster × Post)} (hl : s.Lags t late) {u : Posting}
    (hmove : t.move? move = some u) : ∃ late', s.Lags u late' := by
  cases happens_of_move hmove with
  | quit => exact ⟨late, hl.made, hl.late, rfl, hl.about⟩
  | lookInTime _ hin => exact absurd (hl.cancelled.symm.trans hin) (by simp)
  | lookLate _ _ => exact ⟨late, hl⟩
  | @post who post hpost =>
    have hnew : who ∉ late.map Prod.fst := fun hmem => by
      rw [hl.about who, if_pos hmem] at hpost
      exact absurd hpost (by simp)
    rw [hl.about who, if_neg hnew] at hpost
    refine ⟨late ++ [(who, post)], ?_, ⟨?_, ?_⟩, hl.cancelled, fun who' => ?_⟩
    · rw [← List.append_assoc, ← hl.made]
    · rw [List.map_append]
      refine List.nodup_append.mpr ⟨hl.late.once, List.nodup_singleton _, ?_⟩
      rintro other hother _ hsame rfl
      obtain rfl := List.mem_singleton.mp hsame
      exact hnew hother
    · exact List.forall_mem_append.mpr ⟨hl.late.about, List.forall_mem_singleton.mpr hpost⟩
    · by_cases hwho : who' = who
      · subst hwho
        simp [withAbout]
      · have hsame : who' ∈ (late ++ [(who, post)]).map Prod.fst ↔ who' ∈ late.map Prod.fst := by
          simp [hwho]
        exact (about_withAbout_of_ne hwho).trans
          ((hl.about who').trans (if_congr hsame.symm rfl rfl))

/-- Once the work is cancelled, posts are only late ones. -/
theorem exists_late (hcancelled : s.cancelled = true) (h : run? move? s more = some t) :
    ∃ late, t.made = s.made ++ late ∧ s.Late late := by
  obtain ⟨late, hl⟩ : ∃ late, s.Lags t late :=
    @invariant _ _ move? s t [] more (fun _ t => ∃ late, s.Lags t late) (fun ⟨_, hl⟩ => hl.step)
      ⟨[], lags_self hcancelled⟩ h
  exact ⟨late, hl.made, hl.late⟩

/-! ## Posting at once -/

/-- The moves of posters that post as soon as they are let through. -/
def atOnce (cancelled : Bool) : List Request → List Move
  | [] => []
  | .quit :: rest => .take .quit :: atOnce true rest
  | .look who post :: rest =>
    .take (.look who post) :: (if cancelled then [] else [.post who]) ++ atOnce cancelled rest

theorem taken_atOnce (cancelled : Bool) (asked : List Request) :
    taken (atOnce cancelled asked) = asked := by
  induction asked generalizing cancelled with
  | nil => rfl
  | cons r asked ih =>
    cases r with
    | quit => exact congrArg (Request.quit :: ·) (ih true)
    | look who post =>
      cases cancelled <;> exact congrArg (Request.look who post :: ·) (ih _)

theorem run_atOnce (cancelled : Bool) (asked : List Request) (made : List (Poster × Post)) :
    ∃ c, run? move? ⟨cancelled, fun _ => none, made⟩ (atOnce cancelled asked) =
      some ⟨c, fun _ => none, made ++ admitted cancelled asked⟩ := by
  induction asked generalizing cancelled made with
  | nil => exact ⟨cancelled, by rw [admitted, List.append_nil]; rfl⟩
  | cons r asked ih =>
    cases r with
    | quit => exact (ih true made).imp fun c h => (run?_cons rfl).trans h
    | look who post =>
      cases cancelled with
      | true => exact (ih true made).imp fun c h => (run?_cons rfl).trans h
      | false =>
        obtain ⟨c, h⟩ := ih false (made ++ [(who, post)])
        refine ⟨c, ?_⟩
        have hlook : move? ⟨false, fun _ => none, made⟩ (.take (.look who post)) =
            some (withAbout ⟨false, fun _ => none, made⟩ who (some post)) := rfl
        have hpost : move? (withAbout ⟨false, fun _ => none, made⟩ who (some post)) (.post who) =
            some ⟨false, fun _ => none, made ++ [(who, post)]⟩ := by
          simp [move?, withAbout]
        rw [atOnce, if_neg Bool.false_ne_true]
        refine (run?_cons hlook).trans ((run?_cons hpost).trans (h.trans ?_))
        rw [List.append_assoc]
        rfl

/-! ## Requests of the work -/

/-- How requests are posted, in whatever order looks, posts and leaving come: each poster makes the
posts that looks let through, in order; from the moment on that the work is cancelled, it makes at
most the one that it was about to make. All of them are made if posters post at once. -/
structure Respects (cancelled : Bool) (asked : List Request) : Prop where
  posts : ∀ {moves s}, run? move? (start cancelled) moves = some s → taken moves <+: asked →
    ∀ who, ofPoster who s.made ++ (s.about who).toList =
      ofPoster who (admitted cancelled (taken moves))
  late : ∀ {moves s more t}, run? move? (start cancelled) moves = some s → s.cancelled = true →
    run? move? s more = some t → taken (moves ++ more) <+: asked →
    ∃ late, t.made = s.made ++ late ∧ s.Late late
  atOnce : ∃ moves c, taken moves = asked ∧
    run? move? (start cancelled) moves = some ⟨c, fun _ => none, admitted cancelled asked⟩

theorem respects (cancelled : Bool) (asked : List Request) : Respects cancelled asked where
  posts hrun _ := (kept_of_run hrun).posts
  late _ hcancelled hmore _ := exists_late hcancelled hmore
  atOnce := by
    obtain ⟨c, h⟩ := run_atOnce cancelled asked []
    exact ⟨_, c, taken_atOnce cancelled asked, h⟩

end Posting

end StillVideo.Dashboard
