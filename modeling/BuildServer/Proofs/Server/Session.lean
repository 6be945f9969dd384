import BuildServer.Proofs.Frame.Chunking
import BuildServer.Proofs.Server.Origins

namespace BuildServer.Server

variable {κ : Type} {site : κ} {store : Store} {chunks : List Bytes} {es : List Event} {s s' : Server κ}

def Move.received : Move → List Bytes
  | .receive bytes => [bytes]
  | _ => []

/-- Moves one after another, what is received by them and what is seen of them. -/
inductive Session (client : Client κ) (service : Service) (s : Server κ) :
    List Bytes → List Event → Server κ → Prop
  | start : Session client service s [] [] s
  | move {chunks es s' s''} (before : Session client service s chunks es s') (m : Move)
    (h : s'.move client service m = some s'') :
    Session client service s (chunks ++ Move.received m) (es ++ (s'.event? m).toList) s''

variable {client : Client κ} {service : Service}

theorem Session.run (h : Session client service s chunks es s') : Run client service s es s' := by
  induction h with
  | start => exact .start
  | move _ m hm ih => exact ih.move m hm

def heard (client : Client κ) (service : Service) : List Move → Server κ → List Bytes
  | [], _ => []
  | m :: ms, s =>
    match s.move client service m with
    | some s' => Move.received m ++ heard client service ms s'
    | none => heard client service ms s

theorem Session.trans {chunks' : List Bytes} {fs : List Event} {s'' : Server κ}
    (h : Session client service s chunks es s') (h' : Session client service s' chunks' fs s'') :
    Session client service s (chunks ++ chunks') (es ++ fs) s'' := by
  induction h' with
  | start => simpa using h
  | move _ m hm ih => simpa only [List.append_assoc] using ih.move m hm

theorem session_play (ms : List Move) (s : Server κ) :
    Session client service s (heard client service ms s) (play client service ms s).1
      (play client service ms s).2 := by
  induction ms generalizing s with
  | nil => exact .start
  | cons m ms ih =>
    rw [play, heard]
    split
    · rename_i s' hm
      simpa [hm] using (Session.start.move m hm).trans (ih s')
    · rename_i hm
      simpa [hm] using ih s

def taken? : Event → Option Incoming
  | .taken m => some m
  | _ => none

def messages (es : List Event) : List Incoming := es.filterMap taken?

theorem feedAll_append (d : Frame.Decoder) (chunks : List Bytes) (bytes : Bytes) :
    Incoming.feedAll d (chunks ++ [bytes]) =
      ((Incoming.feedAll d chunks).1 ++ (Incoming.feed (Incoming.feedAll d chunks).2 bytes).1,
        (Incoming.feed (Incoming.feedAll d chunks).2 bytes).2) := by
  induction chunks generalizing d with
  | nil => simp [Incoming.feedAll]
  | cons chunk chunks ih =>
    simp only [List.cons_append, Incoming.feedAll, ih, List.append_assoc]

theorem reading_iff : s.isReading = true ↔ s.inbox = [] ∧ s.handling = .done () ∧ s.outcome = none := by
  cases h : s.handling with
  | done u => simp [isReading, h, Dialogue.result?]
  | ask a go => simp [isReading, h, Dialogue.result?]

theorem messages_append (es fs : List Event) : messages (es ++ fs) = messages es ++ messages fs :=
  List.filterMap_append

theorem inbox_move {m : Move} (hm : s.move client service m = some s') :
    (∃ bytes, m = .receive bytes ∧ s.inbox = [] ∧ (s'.inbox, s'.decoder) = Incoming.feed s.decoder bytes) ∨
    Move.received m = [] ∧ s'.decoder = s.decoder ∧ messages (s.event? m).toList ++ s'.inbox = s.inbox := by
  cases m with
  | receive bytes =>
    simp only [Server.move, Option.ite_none_right_eq_some, Bool.and_eq_true, Option.some.injEq] at hm
    obtain ⟨⟨reading, -⟩, rfl⟩ := hm
    exact .inl ⟨bytes, rfl, (reading_iff.1 reading).1, rfl⟩
  | close | breakOff _ =>
    simp only [Server.move, Option.ite_none_right_eq_some, Option.some.injEq] at hm
    obtain ⟨-, rfl⟩ := hm
    exact .inr ⟨rfl, rfl, rfl⟩
  | handle =>
    simp only [Server.move] at hm
    split at hm
    · rename_i m rest _ hinbox
      obtain rfl := Option.some.inj hm
      refine .inr ⟨rfl, ?_, ?_⟩
      · unfold dispatch
        split <;> rfl
      · have hrest : (dispatch service m { s with inbox := rest }).inbox = rest := by
          unfold dispatch
          split <;> rfl
        rw [event?, hrest, hinbox]
        rfl
    · cases hm
  | goOn =>
    simp only [Server.move, Option.map_eq_some_iff] at hm
    obtain ⟨_, -, rfl⟩ := hm
    refine .inr ⟨rfl, rfl, ?_⟩
    rw [event?]
    cases s.handling.question? <;> rfl
  | beginRefresh =>
    simp only [Server.move] at hm
    split at hm
    · cases hm
    · obtain rfl := Option.some.inj hm
      exact .inr ⟨rfl, rfl, rfl⟩
  | step i =>
    simp only [Server.move, Option.bind_eq_some_iff, Option.map_eq_some_iff] at hm
    obtain ⟨_, -, _, -, rfl⟩ := hm
    refine .inr ⟨rfl, rfl, ?_⟩
    rw [event?]
    cases s.tasks[i]?.bind (·.program.question?) <;> rfl
  | exit =>
    simp only [Server.move] at hm
    split at hm
    · simp only [Option.ite_none_right_eq_some, Option.some.injEq] at hm
      obtain ⟨-, rfl⟩ := hm
      exact .inr ⟨rfl, rfl, rfl⟩
    · cases hm
  | finish =>
    simp only [Server.move, Option.ite_none_right_eq_some, Option.map_eq_some_iff] at hm
    obtain ⟨-, _, -, rfl⟩ := hm
    exact .inr ⟨rfl, rfl, rfl⟩

theorem Session.feedAll (h : Session client service (.initial site store) chunks es s) :
    Incoming.feedAll .empty chunks = (messages es ++ s.inbox, s.decoder) := by
  induction h with
  | start => rfl
  | @move chunks es s' s'' before m hm ih =>
    rcases inbox_move hm with ⟨bytes, rfl, hinbox, hfeed⟩ | ⟨hm, hdecoder, hinbox⟩
    · have hnone : messages (s'.event? (.receive bytes)).toList = [] := rfl
      rw [Move.received, feedAll_append, ih, hinbox, List.append_nil, ← hfeed, messages_append, hnone,
        List.append_nil]
    · rw [hm, List.append_nil, ih, hdecoder, messages_append, List.append_assoc, hinbox]

theorem finish_closed (closed : s.input = .closed) (returns : s.move client service .finish = some s') :
    s.inbox = [] ∧ (∀ t ∈ s.tasks, t.kind = .request → t.program = .done ()) ∧
      s'.shared = s.shared := by
  simp only [Server.move, Option.ite_none_right_eq_some, Option.map_eq_some_iff] at returns
  obtain ⟨reading, o, ho, rfl⟩ := returns
  refine ⟨(reading_iff.1 reading).1, fun t ht hkind => ?_, rfl⟩
  rw [inputOutcome, closed] at ho
  simp only [Option.ite_none_right_eq_some, requestsDone, List.all_eq_true] at ho
  have hdone := ho.1 t ht
  rw [hkind] at hdone
  cases hp : t.program with
  | done u => rfl
  | ask a go => simp [Task.isDone, hp, Dialogue.result?] at hdone

end BuildServer.Server
