import SlotRegistry.Machine.Config
/-!
# Call — what each call does up to its first user code

A call that runs no user code is done at once.  One that does leaves a frame on the stack, and its cell as it must be
while that code runs.
-/
namespace SlotRegistry
namespace Config

variable {α : Type}

/-! ### Entering a cell -/

/-- Carries on inside a cell, the thread registered and the lock held for writing. -/
def writing (c : Config α) (cell : Cell α) (refused : Config α) (inside : Cell α → Config α) : Config α :=
  match cell.enter? c.thread with
  | none => refused
  | some cell =>
    match cell.write? c.thread with
    | none => c.block
    | some cell => inside cell

/-- Carries on inside a cell, the thread registered and the lock held for reading. -/
def reading (c : Config α) (cell : Cell α) (refused : Config α) (inside : Cell α → Config α) : Config α :=
  match cell.enter? c.thread with
  | none => refused
  | some cell =>
    match cell.read? c.thread with
    | none => c.block
    | some cell => inside cell

/-- The call breaks off on entry. -/
def refuseEntry (c : Config α) (next : Outcome α → Program α) : Config α := c.reply (.raised reentryMessage #[]) next

/-- A call that holds a cell for reading, and ran user code there, is over. -/
def endReading (c : Config α) (n : CellId) (x : Outcome α) (next : Outcome α → Program α) : Config α :=
  match c.world.cells[n]? with
  | none => c.reply x next
  | some cell => (c.put n ((cell.endRead c.thread).leave c.thread)).letGo n x next

/-- A call that holds a cell for writing, and ran user code there, is over. -/
def endWriting (c : Config α) (n : CellId) (x : Outcome α) (next : Outcome α → Program α) : Config α :=
  match c.world.cells[n]? with
  | none => c.reply x next
  | some cell => (c.put n (cell.endWrite.leave c.thread)).letGo n x next

/-! ### Calls on a registry -/

/-- Claims the next id.  When there is none the listener is told the cursor, which is read under the lock; the lock is
held until the listener has been told. -/
def reserve (c : Config α) (n : CellId) (cell : Cell α) (next : Outcome α → Program α) : Config α :=
  c.writing cell (c.refuseEntry next) fun cell =>
    match cell.registry.reserve with
    | .ok (id, registry) =>
      let cell := (cell.withRegistry registry).endWrite
      ((c.emit (.reserved id) n cell.lock).put n (cell.leave c.thread)).reply (.reserved ⟨id, n⟩) next
    | .error why =>
      let cell := cell.endWrite
      if c.world.verbosity.shows (.exhausted cell.registry.cursor) then
        match cell.read? c.thread with
        | none => c.block
        | some cell =>
          let told := c.emit (.exhausted cell.registry.cursor) n cell.lock
          (told.put n ((cell.endRead c.thread).leave c.thread)).reply (.refused why) next
      else (c.put n (cell.leave c.thread)).reply (.refused why) next

/-- Stores a value as `bind` does.  A refused value is destroyed inside the call, the lock still held; when entry is
refused the value is destroyed while the call breaks off. -/
def store (c : Config α) (n : CellId) (cell : Cell α) (id : SlotId) (v : Value α (Program α))
    (bind : Registry (Stored α) → SlotId → Stored α → Except Refusal (Registry (Stored α)))
    (event : Event) (x : Outcome α) (next : Outcome α → Program α) : Config α :=
  let (s, world) := c.world.handOver v n id
  let c := { c with world := world }
  c.writing cell ((c.put n cell.addOwner).destroy s (.bouncing n) next) fun cell =>
    match bind cell.registry id s with
    | .ok registry =>
      let cell := (cell.withRegistry registry).endWrite
      ((c.emit event n cell.lock).put n (cell.leave c.thread)).reply x next
    | .error why => (c.put n cell.addOwner).destroy s (.rejecting n why) next

def pop (c : Config α) (n : CellId) (cell : Cell α) (id : SlotId) (next : Outcome α → Program α) : Config α :=
  c.writing cell (c.refuseEntry next) fun cell =>
    match cell.registry.take id with
    | .ok (s, registry) =>
      let cell := (cell.withRegistry registry).endWrite
      let told := (c.emit (.popped id) n cell.lock).put n (cell.leave c.thread)
      { told with world := told.world.giveBack s }.reply (.popped s.serial s.value.payload) next
    | .error why => (c.put n (cell.endWrite.leave c.thread)).reply (.refused why) next

/-- Answers a question about the registry that runs no user code. -/
def query (c : Config α) (n : CellId) (cell : Cell α) (answer : Registry (Stored α) → Outcome α)
    (next : Outcome α → Program α) : Config α :=
  c.reading cell (c.refuseEntry next) fun cell =>
    (c.put n ((cell.endRead c.thread).leave c.thread)).reply (answer cell.registry) next

/-- Copies the value of an id; the code that copies it runs inside the call. -/
def get (c : Config α) (n : CellId) (cell : Cell α) (id : SlotId) (next : Outcome α → Program α) : Config α :=
  c.reading cell (c.refuseEntry next) fun cell =>
    match cell.registry.get? id with
    | none => (c.put n ((cell.endRead c.thread).leave c.thread)).reply (.found none) next
    | some s => (c.put n cell.addOwner).run s.value.onCopy (.copying n s.value.payload) next

/-- A walk goes on to the next id ahead and shows the visitor what is bound to it now. -/
def walkOn (c : Config α) (n : CellId) (visit : Array (Visit α) → SlotId → Option α → Program α)
    (visits : Array (Visit α)) (ahead : List SlotId) (next : Outcome α → Program α) : Config α :=
  match ahead with
  | [] => c.endReading n (.walked visits) next
  | id :: ahead =>
    let value := (c.world.cells[n]?).bind (·.payload? id)
    c.run (visit visits id value) (.walking n visit visits id value ahead) next

/-- Shows a visitor the entries of a registry.  It comes to them in the order of their ids, where any order would do: a
visitor should not rely on it, and the results about walks tell which entries are shown and not in which order. -/
def walk (c : Config α) (n : CellId) (cell : Cell α) (visit : Array (Visit α) → SlotId → Option α → Program α)
    (next : Outcome α → Program α) : Config α :=
  c.reading cell (c.refuseEntry next) fun cell => (c.put n cell.addOwner).walkOn n visit #[] cell.registry.ids next

/-- Frees an id; nothing happens once the cell is dead.  The removed value is destroyed when detector and lock have
been left and the listener has been told; until then the call owns the cell. -/
def release (c : Config α) (ticket : Ticket) (next : Outcome α → Program α) : Config α :=
  match c.world.cells[ticket.cell]? with
  | none => c.reply .done next
  | some cell =>
    if cell.owners = 0 then c.reply .done next
    else
      c.writing cell (c.refuseEntry next) fun cell =>
        let slot := cell.registry.slot? ticket.id
        let cell := (cell.withRegistry (cell.registry.remove ticket.id)).endWrite.leave c.thread
        let told := c.emit (.released ticket.id slot.isSome) ticket.cell cell.lock
        match slot with
        | some (.occupied s) => (told.put ticket.cell cell.addOwner).destroy s (.discarding ticket.cell) next
        | _ => (told.put ticket.cell cell).reply .done next

/-- Destroys a value that was given back.  Whoever has it runs its code; no cell is entered, owned or changed. -/
def dispose (c : Config α) (serial : Nat) (next : Outcome α → Program α) : Config α :=
  match c.world.given? serial with
  | none => c.reply .done next
  | some s => { c with world := c.world.forget serial }.run s.value.onDestroy .disposing next

/-! ### Calls about handles -/

/-- A handle comes to belong to a cell that has got one more owner; the cell it belonged to loses one. -/
def rebind (c : Config α) (h : Handle) (n : CellId) (x : Outcome α) (next : Outcome α → Program α) : Config α :=
  let former := c.world.find? h
  let c := { c with world := c.world.bind h n }
  match former with
  | none => c.reply x next
  | some m => c.letGo m x next

def create (c : Config α) (h : Handle) (next : Outcome α → Program α) : Config α :=
  let (n, world) := c.world.create
  { c with world := world }.rebind h n .done next

def hold (c : Config α) (n : CellId) (cell : Cell α) (next : Outcome α → Program α) : Config α :=
  let h := Handle.own c.world.held
  let world := { c.world with held := c.world.held + 1 }.put n cell.addOwner
  { c with world := world }.rebind h n (.held h) next

def giveUp (c : Config α) (h : Handle) (n : CellId) (next : Outcome α → Program α) : Config α :=
  { c with world := c.world.unbind h }.letGo n .done next

/-! ### Calls about tickets -/

def shelve (c : Config α) (ticket : Ticket) (next : Outcome α → Program α) : Config α :=
  let (number, world) := c.world.shelve ticket
  { c with world := world }.reply (.shelved number) next

/-! ### Any call -/

/-- Does something with the cell of a handle. -/
def withCell (c : Config α) (h : Handle) (next : Outcome α → Program α) (act : CellId → Cell α → Config α) : Config α :=
  match c.world.cellOf? h with
  | none => c.reply .noHandle next
  | some (n, cell) => act n cell

/-- Makes a call. -/
def perform (c : Config α) (next : Outcome α → Program α) : Call α (Program α) → Config α
  | .create h => c.create h next
  | .share source target =>
    c.withCell source next fun n cell => (c.put n cell.addOwner).rebind target n .done next
  | .hold h => c.withCell h next fun n cell => c.hold n cell next
  | .giveUp h => c.withCell h next fun n _ => c.giveUp h n next
  | .inspect h => c.withCell h next fun _ cell => c.reply (.glance cell.glance) next
  | .reserve h => c.withCell h next fun n cell => c.reserve n cell next
  | .add h id v =>
    c.withCell h next fun n cell => c.store n cell id v Registry.insert (.added id) (.added ⟨id, n⟩) next
  | .set h id v => c.withCell h next fun n cell => c.store n cell id v Registry.fill (.set id) .done next
  | .pop h id => c.withCell h next fun n cell => c.pop n cell id next
  | .get h id => c.withCell h next fun n cell => c.get n cell id next
  | .contains h id => c.withCell h next fun n cell => c.query n cell (fun r => .flag (r.contains id)) next
  | .size h => c.withCell h next fun n cell => c.query n cell (fun r => .count r.size) next
  | .isEmpty h => c.withCell h next fun n cell => c.query n cell (fun r => .flag r.isEmpty) next
  | .cursor h => c.withCell h next fun n cell => c.query n cell (fun r => .cursor r.cursor) next
  | .walk h visit => c.withCell h next fun n cell => c.walk n cell visit next
  | .release ticket => c.release ticket next
  | .dispose serial => c.dispose serial next
  | .shelve ticket => c.shelve ticket next
  | .shelved number => c.reply (.onShelf (c.world.shelved? number)) next
  | .unshelve number => { c with world := c.world.unshelve number }.reply .done next

end Config

end SlotRegistry
