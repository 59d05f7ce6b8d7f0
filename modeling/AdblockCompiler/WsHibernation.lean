import AdblockCompiler.ErrorQueue
import AdblockCompiler.KeyedRows
import AdblockCompiler.CacheKeys

-- WsHibernationDO and the route to it: the sockets of a room, which the runtime
-- keeps while the object sleeps, and the sessions in its storage.
namespace AdblockCompiler.WsHibernation
open JsText JsonText Schedules KeyedRows
open Hosts (decimal)
open ErrorQueue (given number)
open CacheKeys (field)

structure SessionMeta where
  tag : Text
  connectedAt : Nat
  lastActivity : Nat
  userId : Option Text

def SessionMeta.json (session : SessionMeta) : Json :=
  .object (("tag".toList,.string session.tag) :: ("connectedAt".toList,number session.connectedAt) ::
    ("lastActivity".toList,number session.lastActivity) :: given "userId" (session.userId.map .string) [])

-- WsClientMessageSchema.
inductive WsClientMessage where
  | ping
  | presence
  | message (data : Option Json)

def parseClientMessage (json : Json) : Option WsClientMessage :=
  match field "type" json with
  | some (.string type) =>
    if type = "ping".toList then some .ping
    else if type = "presence".toList then some .presence
    else if type = "message".toList then some (.message (field "data" json))
    else none
  | _ => none

def typed (type : String) (fields : List (Text × Json)) : Text := stringify (.object (("type".toList,.string type.toList) :: fields))

def welcome (tag : Text) (connectedAt : Nat) : Text := typed "welcome" [("tag".toList,.string tag),("connectedAt".toList,number connectedAt)]

-- What the runtime says the time is, and which closes it takes.
structure Platform where
  isoDate : Nat → Text
  closes : Nat → Text → Bool

-- A socket the runtime has for the room. closing says that it was closed at
-- this end; connectedAt, heard, userId and ended are history: the request it
-- came with, when it was heard of last, and whether its session was ended.
structure Socket where
  tag : Text
  closing : Bool
  received : List Text
  connectedAt : Nat
  heard : Nat
  userId : Option Text
  ended : Bool

def Socket.session (socket : Socket) : SessionMeta := ⟨socket.tag,socket.connectedAt,socket.heard,socket.userId⟩

-- A send throws on a socket that was closed at this end.
def Socket.send (frame : Text) (socket : Socket) : Socket := if socket.closing then socket else { socket with received := socket.received ++ [frame] }

def Socket.close (platform : Platform) (code : Nat) (reason : Text) (socket : Socket) : Socket :=
  { socket with closing := socket.closing || platform.closes code reason, ended := true }

def Socket.hear (now : Nat) (socket : Socket) : Socket := { socket with heard := now }

structure Room where
  storage : Entries Text SessionMeta
  sockets : List Socket

def Room.empty : Room := ⟨Entries.empty,[]⟩

def sessionKey (tag : Text) : Text := "session:".toList ++ tag

def Room.loadAllSessions (room : Room) : List SessionMeta :=
  (room.storage.select (fun entry => startsWith entry.1 "session:".toList) false none).map Prod.snd

def Room.updateLastActivity (room : Room) (tag : Text) (now : Nat) : Room :=
  match room.storage.get (sessionKey tag) with
  | none => room
  | some existing => { room with storage := room.storage.set (sessionKey tag,{ existing with lastActivity := now }) }

-- The sockets of a tag.
def Room.on (room : Room) (tag : Text) (f : Socket → Socket) : Room :=
  { room with sockets := room.sockets.map fun socket => if socket.tag = tag then f socket else socket }

def Room.endSession (room : Room) (tag : Text) : Room := { room with storage := room.storage.remove (sessionKey tag) }

inductive Response where
  | upgradeExpected
  | switched (tag : Text)
  | sessions (sessions : List SessionMeta) (total : Nat)
  | invalid
  | sent (sent : Nat)
  | closed (closed : Nat)

-- GET /ws.
def Room.ws (room : Room) (now : Nat) (upgrade userId : Option Text) (uuid : Text) : Room × Response :=
  if upgrade.map (fun header => (trim header).map Char.toLower) = some "websocket".toList then
    let tag := "ws-".toList ++ uuid
    ({ storage := room.storage.set (sessionKey tag,⟨tag,now,now,userId⟩)
       sockets := room.sockets ++ [⟨tag,false,[welcome tag now],now,now,userId,false⟩] },.switched tag)
  else (room,.upgradeExpected)

-- BroadcastRequestSchema and DisconnectRequestSchema, with their defaults.
structure BroadcastRequest where
  message : Option Json
  tag : Option Text

def parseBroadcast : Json → Option BroadcastRequest
  | .object fields =>
    match field "tag" (.object fields) with
    | none => some ⟨field "message" (.object fields),none⟩
    | some (.string tag) => some ⟨field "message" (.object fields),some tag⟩
    | some _ => none
  | _ => none

structure DisconnectRequest where
  tag : Text
  code : Nat
  reason : Text

-- An integer, as far as it is one that passes.
def codeOf (value : Number) : Option Nat := (List.range' 1000 4000).find? fun code => decimal code = value.text

def parseDisconnect (json : Json) : Option DisconnectRequest := do
  let tag ← match field "tag" json with
    | some (.string tag) => some tag
    | _ => none
  let code ← match field "code" json with
    | none => some 1000
    | some (.number value) => codeOf value
    | some _ => none
  let reason ← match field "reason" json with
    | none => some "Disconnected by server".toList
    | some (.string reason) => if (codeUnits reason).length ≤ 123 then some reason else none
    | some _ => none
  some ⟨tag,code,reason⟩

-- JSON.stringify gives undefined for a message that is left out.
def BroadcastRequest.payload (request : BroadcastRequest) : Text := (request.message.map stringify).getD "undefined".toList

-- No tag, and the empty one, stand for all sockets.
def BroadcastRequest.reaches (request : BroadcastRequest) (socket : Socket) : Bool :=
  match request.tag with
  | none => true
  | some tag => tag = [] || socket.tag = tag

-- What comes to a room besides GET /ws. The text of a request, or of a message
-- of a client, is none where it is no JSON.
inductive Event where
  | sessions
  | broadcast (body : Option Json)
  | disconnect (body : Option Json)
  | webSocketMessage (tag : Text) (message : Option Json)
  | webSocketClose (tag : Text)
  | webSocketError (tag : Text)

section Handlers
variable (platform : Platform)

def Room.broadcast (room : Room) (request : BroadcastRequest) : Room × Response :=
  let reached := room.sockets.filter request.reaches
  ({ room with sockets := room.sockets.map fun socket => if request.reaches socket then socket.send request.payload else socket },
    .sent (reached.countP fun socket => !socket.closing))

def Room.disconnect (room : Room) (request : DisconnectRequest) : Room × Response :=
  ((room.on request.tag (Socket.close platform request.code request.reason)).endSession request.tag,
    .closed (room.sockets.countP fun socket => socket.tag = request.tag))

def Room.answer (room : Room) (now : Nat) : Option WsClientMessage → Text
  | none => typed "error" [("error".toList,.string "Invalid message format".toList)]
  | some .ping => typed "pong" [("timestamp".toList,.string (platform.isoDate now))]
  | some .presence => typed "presence:update" [("sessions".toList,.array (room.loadAllSessions.map SessionMeta.json))]
  | some (.message data) => typed "message:ack" (given "data" data [("timestamp".toList,.string (platform.isoDate now))])

def Room.webSocketMessage (room : Room) (now : Nat) (tag : Text) (message : Option Json) : Room :=
  let room := (room.updateLastActivity tag now).on tag (Socket.hear now)
  room.on tag (Socket.send (room.answer platform now (message.bind parseClientMessage)))

-- The runtime has no socket any more when it tells of its end.
def Room.webSocketClose (room : Room) (tag : Text) : Room :=
  Room.endSession { room with sockets := room.sockets.filter fun socket => socket.tag ≠ tag } tag

def Room.webSocketError (room : Room) (tag : Text) : Room :=
  (room.endSession tag).on tag (Socket.close platform 1011 "Internal error".toList)

-- While an operation of the storage is under way the runtime holds back what
-- else comes to the object: each handler is one step. It tells of no socket
-- that it does not have.
def Room.step (room : Room) (now : Nat) : Event → Option (Room × Option Response)
  | .sessions => some (room,some (.sessions room.loadAllSessions room.loadAllSessions.length))
  | .broadcast body =>
    match body.bind parseBroadcast with
    | none => some (room,some .invalid)
    | some request => some ((room.broadcast request).1,some (room.broadcast request).2)
  | .disconnect body =>
    match body.bind parseDisconnect with
    | none => some (room,some .invalid)
    | some request => some ((room.disconnect platform request).1,some (room.disconnect platform request).2)
  | .webSocketMessage tag message =>
    if room.sockets.any fun socket => socket.tag = tag then some (room.webSocketMessage platform now tag message,none) else none
  | .webSocketClose tag => if room.sockets.any fun socket => socket.tag = tag then some (room.webSocketClose tag,none) else none
  | .webSocketError tag => if room.sockets.any fun socket => socket.tag = tag then some (room.webSocketError platform tag,none) else none

end Handlers

-- The request of a client, and who its caller was found to be.
structure Headers where
  upgrade : Option Text
  userId : Option Text

def roomId (userId : Option Text) : Text := userId.getD "global".toList

-- The id of the caller in the place of what the client sends, where there is
-- one.
def doHeaders (headers : Headers) (userId : Option Text) : Headers :=
  if (userId.getD []) = [] then headers else { headers with userId := userId }

structure State where
  now : Nat
  issued : List Text
  rooms : Text → Room

def started : State := ⟨0,[],fun _ => Room.empty⟩

inductive Step where
  | advance (ms : Nat)
  | connect (userId : Option Text) (headers : Headers) (uuid : Text)
  | room (id : Text) (event : Event)

-- No uuid comes up twice.
def step (platform : Platform) (s : State) : Step → Option State
  | .advance ms => some { s with now := s.now+ms }
  | .connect userId headers uuid =>
    if uuid ∈ s.issued then none
    else
      let headers := doHeaders headers userId
      let room := ((s.rooms (roomId userId)).ws s.now headers.upgrade headers.userId uuid).1
      some { s with issued := uuid :: s.issued, rooms := Function.update s.rooms (roomId userId) room }
  | .room id event => do
    let (room,_) ← (s.rooms id).step platform s.now event
    some { s with rooms := Function.update s.rooms id room }

-- What holds of a socket of a room.
structure Socket.Sound (platform : Platform) (id : Text) (issued : List Text) (now : Nat) (socket : Socket) : Prop where
  named : ∃ uuid ∈ issued, socket.tag = "ws-".toList ++ uuid
  begun : socket.connectedAt ≤ socket.heard
  past : socket.heard ≤ now
  welcomed : ∃ rest, socket.received = welcome socket.tag socket.connectedAt :: rest
  own : id ≠ "global".toList → id ≠ [] → socket.userId = some id
  ended : socket.closing = true → socket.ended = true
  closed : (∀ code reason, platform.closes code reason = true) → socket.ended = true → socket.closing = true

-- The storage has a session for each socket that nobody was told to end, and
-- no other entry.
structure Room.Sound (room : Room) : Prop where
  tags : (room.sockets.map Socket.tag).Nodup
  stored : ∀ key session, room.storage.get key = some session ↔
    ∃ socket ∈ room.sockets, socket.ended = false ∧ key = sessionKey socket.tag ∧ session = socket.session

variable {platform : Platform} {id : Text} {issued : List Text} {now : Nat}

theorem sessionKey_injective (same : sessionKey one = sessionKey two) : one = two := List.append_cancel_left same

theorem send_sound (frame : Text) (sound : socket.Sound platform id issued now) : (Socket.send frame socket).Sound platform id issued now := by
  unfold Socket.send
  split
  · exact sound
  · refine ⟨sound.named,sound.begun,sound.past,?_,sound.own,sound.ended,sound.closed⟩
    obtain ⟨rest,first⟩ := sound.welcomed
    exact ⟨rest ++ [frame],by simp [first]⟩

theorem close_sound (code : Nat) (reason : Text) (sound : socket.Sound platform id issued now) :
    (Socket.close platform code reason socket).Sound platform id issued now :=
  ⟨sound.named,sound.begun,sound.past,sound.welcomed,sound.own,fun _ => rfl,fun takes _ => by simp [Socket.close,takes]⟩

theorem heard_sound (sound : Socket.Sound platform id issued now socket) :
    (Socket.hear now socket).Sound platform id issued now :=
  ⟨sound.named,Nat.le_trans sound.begun sound.past,Nat.le_refl now,sound.welcomed,sound.own,sound.ended,sound.closed⟩

theorem later_sound (sound : Socket.Sound platform id issued now socket) (more : issued ⊆ others) (later : now ≤ then_) :
    Socket.Sound platform id others then_ socket := by
  obtain ⟨uuid,member,tag⟩ := sound.named
  exact ⟨⟨uuid,more member,tag⟩,sound.begun,Nat.le_trans sound.past later,sound.welcomed,sound.own,sound.ended,sound.closed⟩

-- What is done to the sockets of a tag, and to the session under it.
theorem on_sound {room : Room} (sound : room.Sound) (tag : Text) (f : Socket → Socket) (named : ∀ socket, (f socket).tag = socket.tag)
    (storage : Entries Text SessionMeta) (others : ∀ key, key ≠ sessionKey tag → storage.get key = room.storage.get key)
    (its : ∀ session, storage.get (sessionKey tag) = some session ↔
      ∃ socket ∈ room.sockets, socket.tag = tag ∧ (f socket).ended = false ∧ session = (f socket).session) :
    Room.Sound { room.on tag f with storage := storage } where
  tags := by
    have same : (room.on tag f).sockets.map Socket.tag = room.sockets.map Socket.tag := by
      rw [Room.on,List.map_map]
      refine List.map_congr_left ?_
      intro socket _
      rw [Function.comp_apply]
      split
      · exact named socket
      · rfl
    exact same ▸ sound.tags
  stored := by
    intro key session
    simp only [Room.on,List.mem_map,exists_exists_and_eq_and]
    by_cases mine : key = sessionKey tag
    · subst mine
      rw [its session]
      constructor
      · intro found
        obtain ⟨socket,member,same,live,told⟩ := found
        exact ⟨socket,member,by simpa [same] using live,by simp [same,named],by simpa [same] using told⟩
      · intro found
        obtain ⟨socket,member,live,same,told⟩ := found
        by_cases its : socket.tag = tag
        · exact ⟨socket,member,its,by simpa [its] using live,by simpa [its] using told⟩
        · rw [if_neg its] at same
          exact absurd (sessionKey_injective same).symm its
    · rw [others key mine,sound.stored key session]
      have apart (socket : Socket) (same : key = sessionKey socket.tag) : socket.tag ≠ tag := fun equal => mine (equal ▸ same)
      constructor
      · intro found
        obtain ⟨socket,member,live,same,told⟩ := found
        exact ⟨socket,member,by simpa [apart socket same] using live,by simpa [apart socket same] using same,
          by simpa [apart socket same] using told⟩
      · intro found
        obtain ⟨socket,member,live,same,told⟩ := found
        by_cases its : socket.tag = tag
        · rw [if_pos its,named,its] at same
          exact absurd same mine
        · rw [if_neg its] at live same told
          exact ⟨socket,member,live,same,told⟩

theorem stored_tag {room : Room} (sound : room.Sound) (tag : Text) (session : SessionMeta) :
    room.storage.get (sessionKey tag) = some session ↔
      ∃ socket ∈ room.sockets, socket.tag = tag ∧ socket.ended = false ∧ session = socket.session := by
  rw [sound.stored]
  constructor
  · intro found
    obtain ⟨socket,member,live,same,told⟩ := found
    exact ⟨socket,member,(sessionKey_injective same).symm,live,told⟩
  · intro found
    obtain ⟨socket,member,rfl,live,told⟩ := found
    exact ⟨socket,member,live,rfl,told⟩

-- A send leaves a socket what it is to the storage.
theorem send_session (frame : Text) (socket : Socket) :
    (Socket.send frame socket).tag = socket.tag ∧ (Socket.send frame socket).ended = socket.ended ∧
      (Socket.send frame socket).session = socket.session := by
  unfold Socket.send
  split
  · exact ⟨rfl,rfl,rfl⟩
  · exact ⟨rfl,rfl,rfl⟩

theorem sent_room {room : Room} (sound : room.Sound) (frame : Text) (reaches : Socket → Prop) [DecidablePred reaches] :
    Room.Sound { room with sockets := room.sockets.map fun socket => if reaches socket then socket.send frame else socket } := by
  have kept (socket : Socket) : (if reaches socket then socket.send frame else socket).tag = socket.tag ∧
      (if reaches socket then socket.send frame else socket).ended = socket.ended ∧
      (if reaches socket then socket.send frame else socket).session = socket.session := by
    split
    · exact send_session frame socket
    · exact ⟨rfl,rfl,rfl⟩
  refine ⟨?_,?_⟩
  · rw [List.map_map]
    exact (List.map_congr_left fun socket _ => (kept socket).1) ▸ sound.tags
  · intro key session
    simp only [List.mem_map,exists_exists_and_eq_and,(kept _).1,(kept _).2.1,(kept _).2.2]
    exact sound.stored key session

theorem heard_room {room : Room} (sound : room.Sound) (tag : Text) (now : Nat) :
    ((room.updateLastActivity tag now).on tag (Socket.hear now)).Sound := by
  have held := stored_tag sound tag
  unfold Room.updateLastActivity
  cases found : room.storage.get (sessionKey tag) with
  | none =>
    refine on_sound sound tag (Socket.hear now) (fun _ => rfl) room.storage (fun _ _ => rfl) ?_
    intro session
    rw [found]
    refine iff_of_false (by simp) ?_
    intro there
    obtain ⟨socket,member,its,live,-⟩ := there
    have stored := (held socket.session).mpr ⟨socket,member,its,live,rfl⟩
    rw [found] at stored
    cases stored
  | some existing =>
    obtain ⟨socket,member,its,live,rfl⟩ := (held existing).mp found
    refine on_sound sound tag (Socket.hear now) (fun _ => rfl) (room.storage.set _) (fun key other => ?_) ?_
    · rw [get_set,if_neg other]
    · intro session
      rw [get_set,if_pos rfl,Option.some.injEq]
      constructor
      · intro same
        exact ⟨socket,member,its,live,same.symm⟩
      · intro there
        obtain ⟨other,inside,same,-,rfl⟩ := there
        rw [List.inj_on_of_nodup_map sound.tags inside member (same.trans its.symm)]
        rfl

theorem closed_room {room : Room} (sound : room.Sound) (tag : Text) (code : Nat) (reason : Text) :
    ((room.on tag (Socket.close platform code reason)).endSession tag).Sound := by
  refine on_sound sound tag (Socket.close platform code reason) (fun _ => rfl) (room.storage.remove (sessionKey tag)) (fun key other => ?_) ?_
  · rw [get_remove,if_neg other]
  · intro session
    rw [get_remove,if_pos rfl]
    refine iff_of_false (by simp) ?_
    intro there
    obtain ⟨socket,-,-,live,-⟩ := there
    cases live

theorem left_room {room : Room} (sound : room.Sound) (tag : Text) : (room.webSocketClose tag).Sound where
  tags := sound.tags.sublist (List.filter_sublist.map Socket.tag)
  stored := by
    intro key session
    simp only [Room.webSocketClose,Room.endSession,get_remove,List.mem_filter]
    split
    · rename_i same
      refine iff_of_false (by simp) ?_
      intro there
      obtain ⟨socket,⟨-,other⟩,-,its,-⟩ := there
      have equal := sessionKey_injective (its.symm.trans same)
      simp [equal] at other
    · rename_i other
      rw [sound.stored]
      constructor
      · intro there
        obtain ⟨socket,member,live,same,told⟩ := there
        have apart : socket.tag ≠ tag := fun equal => other (equal ▸ same)
        exact ⟨socket,⟨member,by simpa using apart⟩,live,same,told⟩
      · intro there
        obtain ⟨socket,⟨member,-⟩,live,same,told⟩ := there
        exact ⟨socket,member,live,same,told⟩

theorem joined_room {room : Room} (sound : room.Sound) (fresh : ∀ socket ∈ room.sockets, socket.tag ≠ "ws-".toList ++ uuid) (now : Nat)
    (upgrade userId : Option Text) : (room.ws now upgrade userId uuid).1.Sound := by
  unfold Room.ws
  split
  · refine ⟨?_,?_⟩
    · rw [List.map_append,List.nodup_append']
      refine ⟨sound.tags,List.nodup_singleton _,?_⟩
      rw [List.map_singleton,List.disjoint_singleton]
      intro member
      obtain ⟨socket,inside,same⟩ := List.mem_map.mp member
      exact fresh socket inside same
    · intro key session
      dsimp only
      rw [get_set]
      constructor
      · intro found
        split at found
        · rename_i mine
          cases found
          exact ⟨_,List.mem_append_right _ (List.mem_singleton_self _),rfl,mine,rfl⟩
        · obtain ⟨socket,member,live,same,told⟩ := (sound.stored key session).mp found
          exact ⟨socket,List.mem_append_left _ member,live,same,told⟩
      · intro there
        obtain ⟨socket,member,live,rfl,rfl⟩ := there
        rcases List.mem_append.mp member with old | new
        · have other : sessionKey socket.tag ≠ sessionKey ("ws-".toList ++ uuid) := fun same => fresh socket old (sessionKey_injective same)
          rw [if_neg other]
          exact (sound.stored _ _).mpr ⟨socket,old,live,rfl,rfl⟩
        · obtain rfl := List.mem_singleton.mp new
          exact if_pos rfl
  · exact sound

structure Room.Kept (platform : Platform) (id : Text) (issued : List Text) (now : Nat) (room : Room) : Prop where
  sound : room.Sound
  sockets : ∀ socket ∈ room.sockets, socket.Sound platform id issued now

theorem empty_kept : Room.Kept platform id issued now Room.empty where
  sound := ⟨List.nodup_nil,by simp [Room.empty,Entries.get,Entries.empty,Table.find]⟩
  sockets := by simp [Room.empty]

-- What each socket keeps, they all keep.
theorem on_sockets {P : Socket → Prop} {room : Room} (all : ∀ socket ∈ room.sockets, P socket) (tag : Text) {f : Socket → Socket}
    (keeps : ∀ socket, P socket → P (f socket)) : ∀ socket ∈ (room.on tag f).sockets, P socket := by
  intro socket member
  obtain ⟨old,inside,rfl⟩ := List.mem_map.mp member
  split
  · exact keeps old (all old inside)
  · exact all old inside

theorem activity_sockets (room : Room) (tag : Text) (now : Nat) : (room.updateLastActivity tag now).sockets = room.sockets := by
  unfold Room.updateLastActivity
  split <;> rfl

theorem step_room {room next : Room} (kept : room.Kept platform id issued now) (stepped : room.step platform now event = some (next,response)) :
    next.Kept platform id issued now := by
  obtain ⟨sound,sockets⟩ := kept
  cases event with
  | sessions =>
    cases stepped
    exact ⟨sound,sockets⟩
  | broadcast body =>
    simp only [Room.step] at stepped
    split at stepped
    · cases stepped
      exact ⟨sound,sockets⟩
    · rename_i request _
      cases stepped
      refine ⟨sent_room sound request.payload fun socket => request.reaches socket = true,?_⟩
      intro socket member
      obtain ⟨old,inside,rfl⟩ := List.mem_map.mp member
      split
      · exact send_sound request.payload (sockets old inside)
      · exact sockets old inside
  | disconnect body =>
    simp only [Room.step] at stepped
    split at stepped
    · cases stepped
      exact ⟨sound,sockets⟩
    · rename_i request _
      cases stepped
      exact ⟨closed_room sound request.tag request.code request.reason,
        on_sockets sockets request.tag fun _ => close_sound request.code request.reason⟩
  | webSocketMessage tag message =>
    simp only [Room.step] at stepped
    split at stepped
    · cases stepped
      refine ⟨sent_room (heard_room sound tag now) _ fun socket => socket.tag = tag,?_⟩
      refine on_sockets ?_ tag fun _ => send_sound _
      exact on_sockets (activity_sockets room tag now ▸ sockets) tag fun _ => heard_sound
    · cases stepped
  | webSocketClose tag =>
    simp only [Room.step] at stepped
    split at stepped
    · cases stepped
      exact ⟨left_room sound tag,fun socket member => sockets socket (List.mem_of_mem_filter member)⟩
    · cases stepped
  | webSocketError tag =>
    simp only [Room.step] at stepped
    split at stepped
    · cases stepped
      exact ⟨closed_room sound tag _ _,on_sockets sockets tag fun _ => close_sound _ _⟩
    · cases stepped

-- The user whose room it is comes with the request, whatever the client sends.
theorem headers_own (headers : Headers) (userId : Option Text) (other : roomId userId ≠ "global".toList) (some_ : roomId userId ≠ []) :
    (doHeaders headers userId).userId = some (roomId userId) := by
  cases userId with
  | none => exact absurd rfl other
  | some user =>
    unfold doHeaders
    rw [if_neg (show ¬(some user).getD [] = [] from some_)]
    rfl

theorem joined_kept {room : Room} (kept : room.Kept platform id issued now) (fresh : uuid ∉ issued) (upgrade userId : Option Text)
    (own : id ≠ "global".toList → id ≠ [] → userId = some id) : (room.ws now upgrade userId uuid).1.Kept platform id (uuid :: issued) now := by
  have older : ∀ socket ∈ room.sockets, socket.Sound platform id (uuid :: issued) now := fun socket member =>
    later_sound (kept.sockets socket member) (List.subset_cons_self _ _) (Nat.le_refl now)
  refine ⟨joined_room kept.sound ?_ now upgrade userId,?_⟩
  · intro socket member same
    obtain ⟨other,inside,tag⟩ := (kept.sockets socket member).named
    rw [tag] at same
    exact fresh (List.append_cancel_left same ▸ inside)
  · unfold Room.ws
    split
    · refine forall_append older ?_
      refine ⟨⟨uuid,List.mem_cons_self,rfl⟩,Nat.le_refl now,Nat.le_refl now,⟨[],rfl⟩,own,?_,?_⟩
      · intro closing
        cases closing
      · intro _ ended
        cases ended
    · exact older

def Kept (platform : Platform) (s : State) : Prop := ∀ id, (s.rooms id).Kept platform id s.issued s.now

theorem step_kept (kept : Kept platform s) (stepped : step platform s event = some t) : Kept platform t := by
  cases event with
  | advance ms =>
    cases stepped
    intro id
    exact ⟨(kept id).sound,fun socket member => later_sound ((kept id).sockets socket member) (List.Subset.refl _) (Nat.le_add_right _ _)⟩
  | connect userId headers uuid =>
    simp only [step] at stepped
    split at stepped
    · cases stepped
    · rename_i fresh
      cases stepped
      intro id
      by_cases mine : id = roomId userId
      · subst mine
        have joined := joined_kept (kept (roomId userId)) fresh (doHeaders headers userId).upgrade (doHeaders headers userId).userId
          (headers_own headers userId)
        simpa using joined
      · simp only [Function.update_of_ne mine]
        exact ⟨(kept id).sound,fun socket member =>
          later_sound ((kept id).sockets socket member) (List.subset_cons_self _ _) (Nat.le_refl _)⟩
  | room id event =>
    obtain ⟨⟨next,response⟩,turned,made⟩ := Option.bind_eq_some_iff.mp stepped
    cases made
    intro other
    by_cases mine : other = id
    · subst mine
      simpa using step_room (kept other) turned
    · simpa [Function.update_of_ne mine] using kept other

-- What the sessions that a room lists have to do with its sockets.
structure Room.Present (platform : Platform) (id : Text) (now : Nat) (room : Room) : Prop where
  listed : ∀ session, session ∈ room.loadAllSessions ↔ ∃ socket ∈ room.sockets, socket.ended = false ∧ session = socket.session
  ordered : (room.loadAllSessions.map fun session => sessionKey session.tag).Pairwise (· < ·)
  lasting : ∀ session ∈ room.loadAllSessions, session.connectedAt ≤ session.lastActivity ∧ session.lastActivity ≤ now
  own : id ≠ "global".toList → id ≠ [] → ∀ session ∈ room.loadAllSessions, session.userId = some id
  welcomed : ∀ socket ∈ room.sockets, ∃ rest, socket.received = welcome socket.tag socket.connectedAt :: rest
  closing : ∀ socket ∈ room.sockets, socket.closing = true → socket.ended = true
  closed : (∀ code reason, platform.closes code reason = true) → ∀ socket ∈ room.sockets, socket.ended = true → socket.closing = true

theorem entries_found {room : Room} (sound : room.Sound) (entry : Text × SessionMeta) :
    entry ∈ room.storage.select (fun entry => startsWith entry.1 "session:".toList) false none ↔
      ∃ socket ∈ room.sockets, socket.ended = false ∧ entry = (sessionKey socket.tag,socket.session) := by
  have row : entry ∈ room.storage.rows ↔ _ := get_some.symm.trans (sound.stored entry.1 entry.2)
  rw [select_all,row]
  constructor
  · intro there
    obtain ⟨⟨socket,member,live,same,told⟩,-⟩ := there
    exact ⟨socket,member,live,Prod.ext same told⟩
  · intro there
    obtain ⟨socket,member,live,rfl⟩ := there
    exact ⟨⟨socket,member,live,rfl,rfl⟩,startsWith_append _ _⟩

theorem sessions_found {room : Room} (sound : room.Sound) (session : SessionMeta) :
    session ∈ room.loadAllSessions ↔ ∃ socket ∈ room.sockets, socket.ended = false ∧ session = socket.session := by
  rw [Room.loadAllSessions,List.mem_map]
  constructor
  · intro there
    obtain ⟨entry,listed,rfl⟩ := there
    obtain ⟨socket,member,live,rfl⟩ := (entries_found sound entry).mp listed
    exact ⟨socket,member,live,rfl⟩
  · intro there
    obtain ⟨socket,member,live,rfl⟩ := there
    exact ⟨_,(entries_found sound _).mpr ⟨socket,member,live,rfl⟩,rfl⟩

theorem sessions_ordered {room : Room} (sound : room.Sound) : (room.loadAllSessions.map fun session => sessionKey session.tag).Pairwise (· < ·) := by
  let listed := room.storage.select (fun entry => startsWith entry.1 "session:".toList) false none
  have keys : room.loadAllSessions.map (fun session => sessionKey session.tag) = listed.map Prod.fst := by
    rw [Room.loadAllSessions,List.map_map]
    refine List.map_congr_left ?_
    intro entry member
    obtain ⟨socket,-,-,rfl⟩ := (entries_found sound entry).mp member
    rfl
  have sorted : listed.Pairwise fun one two => one.1 ≤ two.1 := by
    have total : Std.Total fun one two : Text × SessionMeta => one.1 ≤ two.1 := ⟨fun one two => le_total one.1 two.1⟩
    have trans : IsTrans (Text × SessionMeta) fun one two => one.1 ≤ two.1 := ⟨fun _ _ _ => le_trans⟩
    exact List.pairwise_insertionSort (fun one two : Text × SessionMeta => one.1 ≤ two.1) _
  have distinct : (listed.map Prod.fst).Nodup := by
    have perm := (List.perm_insertionSort (fun one two : Text × SessionMeta => one.1 ≤ two.1)
      (room.storage.rows.filter fun entry => startsWith entry.1 "session:".toList)).map Prod.fst
    exact perm.nodup_iff.mpr (room.storage.unique.sublist (List.filter_sublist.map Prod.fst))
  rw [keys]
  exact ((List.pairwise_map.mpr sorted).and distinct).imp fun both => lt_of_le_of_ne both.1 both.2

-- Whatever comes to the rooms, in whatever order.
theorem presence_exact (ran : run (step platform) started events = some s) (id : Text) : (s.rooms id).Present platform id s.now := by
  have kept := run_keeps (Kept platform) (fun _ _ _ kept stepped => step_kept kept stepped) (fun _ => empty_kept) ran id
  obtain ⟨sound,sockets⟩ := kept
  refine ⟨sessions_found sound,sessions_ordered sound,?_,?_,?_,?_,?_⟩
  · intro session member
    obtain ⟨socket,inside,-,rfl⟩ := (sessions_found sound session).mp member
    exact ⟨(sockets socket inside).begun,(sockets socket inside).past⟩
  · intro other some_ session member
    obtain ⟨socket,inside,-,rfl⟩ := (sessions_found sound session).mp member
    exact (sockets socket inside).own other some_
  · exact fun socket member => (sockets socket member).welcomed
  · exact fun socket member => (sockets socket member).ended
  · exact fun takes socket member => (sockets socket member).closed takes

-- Two users' sockets and an anonymous one. The first is told to leave and sends
-- once more, the second goes.
def threeJoined : List Step :=
  let client (userId : Option Text) : Headers := ⟨some "WebSocket".toList,userId⟩
  let leave : Json := .object [("tag".toList,.string "ws-1".toList)]
  [.connect (some "ann".toList) (client (some "bob".toList)) "1".toList,.connect none (client (some "bob".toList)) "2".toList,.advance 5,
    .connect (some "ann".toList) (client none) "3".toList,.room "ann".toList (.disconnect (some leave)),.advance 5,
    .room "ann".toList (.webSocketMessage "ws-1".toList none),.room "ann".toList (.webSocketMessage "ws-3".toList none),
    .room "global".toList (.webSocketClose "ws-2".toList)]

def anyPlatform : Platform := ⟨fun now => decimal now,fun _ _ => true⟩

theorem threeJoined_present : ∃ s, run (step anyPlatform) started threeJoined = some s ∧ (s.rooms "ann".toList).Present anyPlatform "ann".toList s.now ∧
    (s.rooms "ann".toList).loadAllSessions.map (fun session => (session.tag,session.connectedAt,session.lastActivity)) =
      [("ws-3".toList,5,10)] ∧ (s.rooms "global".toList).loadAllSessions.length = 0 :=
  ⟨_,rfl,presence_exact (rfl : run (step anyPlatform) started threeJoined = some _) "ann".toList,by decide,by decide⟩

end AdblockCompiler.WsHibernation
