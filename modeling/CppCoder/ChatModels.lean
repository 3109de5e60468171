import CppCoder.ChatReplies

/-! Which models the chat page asks: those that the last listing had as pulled. Only when listings are
loaded at the same time, and the last of them fails, can it be a text that stands in for an option. -/

namespace CppCoder.ChatModels
open Support Utf8 JsonText TextDecoder ChatSession ChatTurns ChatReplies Machine
open ChatPage (Chat lit)

variable {browser : Browser} {page page' : Page}

def nextListing (last : Option Listing) : Event → Option Listing
  | .loaded _ (.listed listing) => some listing
  | .reload => none
  | _ => last

def lastListing (events : List Event) : Option Listing := events.foldl nextListing none

/-- The texts of options that are no models. -/
def standIns : List Text := [refusedText, unreachableText]

def Known (info : ModelInfo) (model : Text) : Prop := (info.lookup model).isSome = true

theorem listedInfo_known {showUncensored : Bool} {listing : Listing} {model : Text}
    (member : model ∈ listing.models ++ offered showUncensored listing) :
    Known (listedInfo showUncensored listing) model := by
  unfold Known listedInfo
  rw [List.lookup_isSome_iff]
  obtain named | other := List.mem_append.1 member
  · refine ⟨(model, true), List.mem_reverse.2 (List.mem_append_left _ ?_), beq_self_eq_true model⟩
    exact List.mem_map_of_mem named
  · refine ⟨(model, false), List.mem_reverse.2 (List.mem_append_right _ ?_), beq_self_eq_true model⟩
    exact List.mem_map_of_mem other

theorem listedInfo_pulled {showUncensored : Bool} {listing : Listing} {model : Text}
    (pulled : (listedInfo showUncensored listing).lookup model = some true) : model ∈ listing.models := by
  obtain ⟨before, after, split, -⟩ := List.lookup_eq_some_iff.1 pulled
  have member : (model, true) ∈ listedInfo showUncensored listing := by simp [split]
  unfold listedInfo at member
  rw [List.mem_reverse, List.mem_append] at member
  obtain named | other := member
  · obtain ⟨name, there, same⟩ := List.mem_map.1 named
    cases same
    exact there
  · obtain ⟨name, -, same⟩ := List.mem_map.1 other
    cases same

structure Offers (others : List Text) (info : ModelInfo) (box : Select) : Prop where
  options : ∀ o ∈ box.options, Known info o ∨ o ∈ others
  value : box.value = [] ∨ Known info box.value ∨ box.value ∈ others

variable {others : List Text} {info : ModelInfo} {box : Select}

theorem Offers.choose (offers : Offers others info box) (model : Text) :
    Offers others info (box.choose model) := by
  refine ⟨offers.options, ?_⟩
  unfold Select.choose
  dsimp only
  split_ifs with there
  · exact .inr (offers.options model there)
  · exact .inl rfl

theorem offers_listed (others : List Text) (showUncensored : Bool) (remembered : Option Text) (disabled : Bool)
    (listing : Listing) : Offers others (listedInfo showUncensored listing)
      (listedSelect showUncensored remembered disabled listing) := by
  have plain : ∀ disabled, Offers others (listedInfo showUncensored listing)
      ⟨listing.models ++ offered showUncensored listing,
        (listing.models ++ offered showUncensored listing).headD [], disabled⟩ := by
    intro disabled
    refine ⟨fun o member => .inl (listedInfo_known member), ?_⟩
    cases options : listing.models ++ offered showUncensored listing with
    | nil => exact .inl rfl
    | cons first rest => exact .inr (.inl (listedInfo_known (by simp [options])))
  unfold listedSelect
  dsimp only
  split
  · exact (plain _).choose _
  · split_ifs <;> first | exact (plain _).choose _ | exact plain _

/-! ### What a step does to the box -/

inductive BoxTurn (page : Page) : Event → Page → Prop where
  | same (e : Event) (page' : Page) (select : page'.select = page.select)
      (info : page'.modelInfo = page.modelInfo) (loads : page'.loads = page.loads)
      (keeps : ∀ last, nextListing last e = last) : BoxTurn page e page'
  | choose (model : Text) (page' : Page) (select : page'.select = page.select.choose model)
      (info : page'.modelInfo = page.modelInfo) (loads : page'.loads = page.loads) :
      BoxTurn page (.choose model) page'
  | start (e : Event) (page' : Page) (select : page'.select = ⟨[], loadingText, true⟩)
      (info : page'.modelInfo = page.modelInfo) (keeps : ∀ last, nextListing last e = last) :
      BoxTurn page e page'
  | finish (id : Nat) (load : Load) (member : load ∈ page.loads) (answer : LoadAnswer) :
      BoxTurn page (.loaded id answer) (finishLoad page load answer)
  | reload (page' : Page) (select : page'.select = ⟨[], loadingText, true⟩) (info : page'.modelInfo = []) :
      BoxTurn page .reload page'

theorem reply_box (browser : Browser) (page : Page) (call : Call) (chat : Chat) :
    (reply browser page call chat).select = page.select ∧
      (reply browser page call chat).modelInfo = page.modelInfo ∧
      (reply browser page call chat).loads = page.loads := by
  unfold reply
  split_ifs <;> exact ⟨rfl, rfl, rfl⟩

theorem newChat_box (browser : Browser) (page : Page) (confirmed : Bool) :
    (newChat browser page confirmed).select = page.select ∧
      (newChat browser page confirmed).modelInfo = page.modelInfo ∧
      (newChat browser page confirmed).loads = page.loads := by
  unfold newChat
  split_ifs
  · exact ⟨rfl, rfl, rfl⟩
  · rw [renderAll_eq]
    exact ⟨rfl, rfl, rfl⟩

theorem step_boxTurn (single : Single page) {e : Event} (stepped : step browser page e = some page') :
    BoxTurn page e page' := by
  cases step_turn single stepped with
  | ask input idle =>
    rw [request_eq]
    exact .same _ _ rfl rfl rfl fun _ => rfl
  | stop => exact .same _ _ rfl rfl rfl fun _ => rfl
  | clear confirmed =>
    obtain ⟨select, info, loads⟩ := newChat_box browser page confirmed
    exact .same _ _ select info loads fun _ => rfl
  | respond call busy awaits status body =>
    unfold respond
    split_ifs <;> exact .same _ _ rfl rfl rfl fun _ => rfl
  | chunk call busy decoder buffer chat awaits value =>
    obtain ⟨left, -, failed⟩ | ⟨later, -, waits⟩ :=
      takeChunk_cases browser page call decoder buffer chat value
    · rw [failed]
      exact .same _ _ rfl rfl rfl fun _ => rfl
    · rw [waits]
      exact .same _ _ rfl rfl rfl fun _ => rfl
  | close call busy decoder buffer chat =>
    obtain ⟨message, failed, -⟩ | ⟨later, -, -, replied⟩ :=
      endBody_cases browser page call decoder buffer chat
    · rw [failed]
      exact .same _ _ rfl rfl rfl fun _ => rfl
    · rw [replied]
      obtain ⟨select, info, loads⟩ := reply_box browser page call later
      exact .same _ _ select info loads fun _ => rfl
  | reject => exact .same _ _ rfl rfl rfl fun _ => rfl
  | expire => exact .same _ _ rfl rfl rfl fun _ => rfl
  | reload page' again =>
    obtain ⟨history, -, rfl⟩ := Option.map_eq_some_iff.1 again
    rw [renderAll_eq]
    exact .reload _ rfl rfl
  | aside e silent page' aside =>
    cases e with
    | send input =>
      cases stepped
      unfold ChatSession.send
      rw [request_eq]
      split_ifs <;> exact .same _ _ rfl rfl rfl fun _ => rfl
    | choose model =>
      change (if _ then _ else _) = some page' at stepped
      split_ifs at stepped
      cases stepped
      exact .choose model _ rfl rfl rfl
    | refresh =>
      cases stepped
      exact .start _ _ rfl rfl fun _ => rfl
    | toggle =>
      cases stepped
      exact .start _ _ rfl rfl fun _ => rfl
    | pulled model =>
      cases stepped
      exact .start _ _ rfl rfl fun _ => rfl
    | loaded id answer =>
      obtain ⟨load, found, rfl⟩ := Option.map_eq_some_iff.1 stepped
      exact .finish id load (List.mem_of_find?_eq_some found) answer
    | _ => cases silent

/-! ### Every run -/

def Informed (last : Option Listing) (page : Page) : Prop :=
  page.modelInfo = [] ∨ ∃ listing showUncensored, last = some listing ∧
    page.modelInfo = listedInfo showUncensored listing

def Enabled (others : List Text) (page : Page) : Prop :=
  page.select.disabled = false → Offers others page.modelInfo page.select

theorem finishLoad_parts (page : Page) (load : Load) (answer : LoadAnswer) :
    (∃ listing, answer = .listed listing ∧
      (finishLoad page load answer).modelInfo = listedInfo page.showUncensored listing ∧
      ∀ others, Offers others (finishLoad page load answer).modelInfo (finishLoad page load answer).select) ∨
    (∀ listing, answer ≠ .listed listing) ∧ (finishLoad page load answer).modelInfo = page.modelInfo ∧
      (finishLoad page load answer).select.disabled = page.select.disabled ∧
      Offers standIns (finishLoad page load answer).modelInfo (finishLoad page load answer).select := by
  cases answer with
  | listed listing =>
    left
    refine ⟨listing, rfl, ?_, fun others => ?_⟩
    · unfold finishLoad
      cases load.pulled <;> rfl
    · unfold finishLoad
      cases load.pulled with
      | none => exact offers_listed others _ _ _ listing
      | some model => exact (offers_listed others _ _ _ listing).choose model
  | refused =>
    have stood : Offers standIns page.modelInfo ⟨[refusedText], refusedText, page.select.disabled⟩ :=
      ⟨fun o member => .inr (by simp [standIns, List.mem_singleton.1 member]), .inr (.inr (by simp [standIns]))⟩
    right
    unfold finishLoad
    cases load.pulled with
    | none => exact ⟨fun listing => by simp, rfl, rfl, stood⟩
    | some model => exact ⟨fun listing => by simp, rfl, rfl, stood.choose model⟩
  | unreachable =>
    have stood : Offers standIns page.modelInfo ⟨[unreachableText], unreachableText, page.select.disabled⟩ :=
      ⟨fun o member => .inr (by simp [standIns, List.mem_singleton.1 member]), .inr (.inr (by simp [standIns]))⟩
    right
    unfold finishLoad
    cases load.pulled with
    | none => exact ⟨fun listing => by simp, rfl, rfl, stood⟩
    | some model => exact ⟨fun listing => by simp, rfl, rfl, stood.choose model⟩

theorem finishLoad_loads (page : Page) (load : Load) (answer : LoadAnswer) :
    (finishLoad page load answer).loads = page.loads.filter fun other => other.id ≠ load.id := by
  unfold finishLoad
  cases answer <;> cases load.pulled <;> rfl

theorem informed_step {last : Option Listing} (informed : Informed last page) {e : Event}
    (turn : BoxTurn page e page') : Informed (nextListing last e) page' := by
  cases turn with
  | same e page' select info loads keeps =>
    rw [keeps]
    unfold Informed
    rwa [info]
  | choose model page' select info loads =>
    unfold Informed
    rwa [info]
  | start e page' select info keeps =>
    rw [keeps]
    unfold Informed
    rwa [info]
  | finish id load member answer =>
    obtain ⟨listing, rfl, info, -⟩ | ⟨other, info, -⟩ := finishLoad_parts page load answer
    · exact .inr ⟨listing, page.showUncensored, rfl, info⟩
    · have keeps : nextListing last (.loaded id answer) = last := by
        cases answer with
        | listed listing => exact absurd rfl (other listing)
        | _ => rfl
      rw [keeps]
      unfold Informed
      rwa [info]
  | reload page' select info => exact .inl info

theorem enabled_step (enabled : Enabled standIns page) {e : Event} (turn : BoxTurn page e page') :
    Enabled standIns page' := by
  intro open_
  cases turn with
  | same e page' select info loads keeps =>
    rw [select] at open_ ⊢
    rw [info]
    exact enabled open_
  | choose model page' select info loads =>
    rw [select] at open_ ⊢
    rw [info]
    exact (enabled open_).choose model
  | start e page' select =>
    rw [select] at open_
    cases open_
  | finish id load member answer =>
    obtain ⟨listing, -, -, offers⟩ | ⟨-, -, -, offers⟩ := finishLoad_parts page load answer
    · exact offers standIns
    · exact offers
  | reload page' select =>
    rw [select] at open_
    cases open_

/-- While a listing is loaded, the box is disabled, and what it offers otherwise is known. -/
structure Calm (page : Page) : Prop where
  waits : page.loads ≠ [] → page.select.disabled = true
  enabled : Enabled [] page

theorem calm_step (calm : Calm page) (single : page.loads.length ≤ 1) {e : Event}
    (turn : BoxTurn page e page') : Calm page' := by
  cases turn with
  | same e page' select info loads keeps =>
    constructor
    · rw [select, loads]
      exact calm.waits
    · unfold Enabled
      rw [select, info]
      exact calm.enabled
  | choose model page' select info loads =>
    constructor
    · rw [select, loads]
      exact calm.waits
    · intro open_
      rw [select] at open_ ⊢
      rw [info]
      exact (calm.enabled open_).choose model
  | start e page' select => exact ⟨fun _ => by rw [select], fun open_ => by rw [select] at open_; cases open_⟩
  | finish id load member answer =>
    have disabled := calm.waits (List.ne_nil_of_mem member)
    constructor
    · intro more
      rw [finishLoad_loads] at more
      have only : page.loads = [load] := by
        obtain ⟨one, same⟩ := List.length_eq_one_iff.1
          (Nat.le_antisymm single (List.length_pos_of_mem member))
        rw [same, List.mem_singleton] at member
        rw [same, member]
      rw [only] at more
      simp at more
    · intro open_
      obtain ⟨listing, -, -, offers⟩ | ⟨-, -, same, -⟩ := finishLoad_parts page load answer
      · exact offers []
      · rw [same, disabled] at open_
        cases open_
  | reload page' select => exact ⟨fun _ => by rw [select], fun open_ => by rw [select] at open_; cases open_⟩

theorem opened_box {stored storedModel : Option Text} {showUncensored : Bool}
    (open_ : opened stored storedModel showUncensored = some page) :
    page.modelInfo = [] ∧ page.select = ⟨[], loadingText, true⟩ := by
  obtain ⟨history, -, rfl⟩ := Option.map_eq_some_iff.1 open_
  rw [renderAll_eq]
  exact ⟨rfl, rfl⟩

/-- Listings were loaded at the same time. -/
def Overlapped (browser : Browser) (first : Page) (events : List Event) : Prop :=
  ∃ before, before <+: events ∧ ∃ page, run (step browser) first before = some page ∧ 1 < page.loads.length

theorem Overlapped.more {first : Page} {seen : List Event} (overlapped : Overlapped browser first seen)
    (e : Event) : Overlapped browser first (seen ++ [e]) := by
  obtain ⟨before, early, found⟩ := overlapped
  exact ⟨before, early.trans (List.prefix_append _ _), found⟩

theorem lastListing_concat (seen : List Event) (e : Event) :
    lastListing (seen ++ [e]) = nextListing (lastListing seen) e := by simp [lastListing]

structure Boxed (browser : Browser) (first : Page) (seen : List Event) (page : Page) : Prop where
  single : Single page
  informed : Informed (lastListing seen) page
  enabled : Enabled standIns page
  calm : Overlapped browser first seen ∨ Calm page

theorem boxed_reached {stored storedModel : Option Text} {showUncensored : Bool} {first : Page}
    {events : List Event} (open_ : opened stored storedModel showUncensored = some first)
    (ran : run (step browser) first events = some page) : Boxed browser first events page := by
  refine run_trace _ ?_ (fun seen s1 e s2 before boxed stepped => ?_) ran
  · obtain ⟨info, select⟩ := opened_box open_
    have closed : ∀ others, Enabled others first := by
      intro others enabled
      rw [select] at enabled
      cases enabled
    exact ⟨.inl (single_opened open_), .inl info, closed _, .inr ⟨fun _ => by rw [select], closed _⟩⟩
  · have turn := step_boxTurn boxed.single stepped
    refine ⟨single_step boxed.single stepped, ?_, enabled_step boxed.enabled turn, ?_⟩
    · rw [lastListing_concat]
      exact informed_step boxed.informed turn
    · obtain overlapped | calm := boxed.calm
      · exact .inl (overlapped.more e)
      · by_cases single : s1.loads.length ≤ 1
        · exact .inr (calm_step calm single turn)
        · exact .inl ⟨seen, List.prefix_append _ _, s1, before, not_le.1 single⟩

theorem asks_known {first : Page} {events : List Event} (boxed : Boxed browser first events page)
    {input : Text} (asks : Asks page input) :
    (∃ listing, lastListing events = some listing ∧ page.select.value ∈ listing.models) ∨
      page.select.value ∈ standIns ∧ Overlapped browser first events := by
  obtain ⟨-, -, chosen, enabled, ready⟩ := asks
  have pulled : Known page.modelInfo page.select.value →
      ∃ listing, lastListing events = some listing ∧ page.select.value ∈ listing.models := by
    intro known
    obtain ⟨pulled, found⟩ := Option.isSome_iff_exists.1 known
    cases pulled with
    | false => exact absurd found ready
    | true =>
      obtain none | ⟨listing, showUncensored, last, info⟩ := boxed.informed
      · rw [none] at found
        cases found
      · rw [info] at found
        exact ⟨listing, last, listedInfo_pulled found⟩
  obtain empty | known | other := (boxed.enabled enabled).value
  · exact absurd empty chosen
  · exact .inl (pulled known)
  · obtain overlapped | calm := boxed.calm
    · exact .inr ⟨other, overlapped⟩
    · obtain empty | known | none := (calm.enabled enabled).value
      · exact absurd empty chosen
      · exact .inl (pulled known)
      · cases none

/-- A question goes to a model that the last listing had as pulled; or else two listings were loaded at the
same time, and it goes to a text that stands in for an option. -/
theorem asks_pulled (browser : Browser) {stored storedModel : Option Text} {showUncensored : Bool}
    {first page page' : Page} {events : List Event} {input : Text}
    (open_ : opened stored storedModel showUncensored = some first)
    (ran : run (step browser) first events = some page) (asks : Asks page input)
    (stepped : step browser page (.send input) = some page') :
    ∃ call, page'.calls = [call] ∧
      ((∃ listing, lastListing events = some listing ∧ call.request.model ∈ listing.models) ∨
        call.request.model ∈ standIns ∧ Overlapped browser first events) := by
  have boxed := boxed_reached open_ ran
  obtain ⟨call, calls, request⟩ := sends_history boxed.single stepped input rfl asks
  refine ⟨call, calls, ?_⟩
  rw [request]
  exact asks_known boxed asks

def listed : Page := (run (step steady) firstPage [.loaded 0 (.listed oneModel)]).get (by decide +kernel)

theorem listed_eq : run (step steady) firstPage [.loaded 0 (.listed oneModel)] = some listed :=
  (Option.some_get _).symm

theorem asks_pulled_listed : ∃ call, (ChatSession.send steady listed (lit "hi")).calls = [call] ∧
    ((∃ listing, lastListing [.loaded 0 (.listed oneModel)] = some listing ∧
        call.request.model ∈ listing.models) ∨
      call.request.model ∈ standIns ∧ Overlapped steady firstPage [.loaded 0 (.listed oneModel)]) :=
  asks_pulled steady firstPage_eq listed_eq (by decide +kernel) rfl

/-- The second listing fails after the first came in. -/
example : (run (step steady) firstPage [.refresh, .loaded 0 (.listed oneModel), .loaded 1 .unreachable]).map
    (fun page => (decide (Asks page (lit "hi")), page.select.value)) = some (true, unreachableText) := by
  decide +kernel

end CppCoder.ChatModels
