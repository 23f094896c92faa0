import Stepwise.Store.Table

/-!
# The six tables

The columns of each table, their own first, then the id and the times of creation and change.
-/

namespace Stepwise.Store

/-- Workflows. -/
def workflowTable : Table WorkflowRow where
  name := "workflows"
  model := "Workflow"
  blank := default
  rows := Tables.workflows
  setRows := fun rows tables => { tables with workflows := rows }
  columns := [
    { name := "workspace_id", sort := .text, nullable := false, unique := false, indexed := true
      default := .null
      read := fun r => .text r.workspace
      write := fun c r => { r with workspace := c.text?.getD "" } },
    { name := "created_by", sort := .text, nullable := true, unique := false, indexed := true
      default := .null
      read := fun r => .ofText? r.creator
      write := fun c r => { r with creator := c.text? } },
    { name := "name", sort := .text, nullable := false, unique := false, indexed := true
      default := .null
      read := fun r => .text r.name
      write := fun c r => { r with name := c.text?.getD "" } },
    { name := "description", sort := .text, nullable := true, unique := false, indexed := false
      default := .null
      read := fun r => .ofText? r.description
      write := fun c r => { r with description := c.text? } },
    { name := "icon", sort := .text, nullable := true, unique := false, indexed := false
      default := .null
      read := fun r => .ofText? r.icon
      write := fun c r => { r with icon := c.text? } },
    { name := "color", sort := .text, nullable := true, unique := false, indexed := false
      default := .null
      read := fun r => .ofText? r.color
      write := fun c r => { r with color := c.text? } },
    { name := "trigger", sort := .json, nullable := false, unique := false, indexed := false
      default := .cell (.json manualTrigger)
      read := fun r => .json r.trigger
      write := fun c r => { r with trigger := c.toValue } },
    { name := "active", sort := .bool, nullable := false, unique := false, indexed := true
      default := .cell (.bool true)
      read := fun r => .bool r.active
      write := fun c r => { r with active := c.isTrue } },
    { name := "version", sort := .int, nullable := false, unique := false, indexed := false
      default := .cell (.int 1)
      read := fun r => .int r.version
      write := fun c r => { r with version := c.int?.getD 0 } },
    { name := "id", sort := .text, nullable := false, unique := true, indexed := true
      default := .rowId
      read := fun r => .text r.id
      write := fun c r => { r with id := c.text?.getD "" } },
    { name := "created_at", sort := .time, nullable := false, unique := false, indexed := false
      default := .now
      read := fun r => .time r.created
      write := fun c r => { r with created := c.time?.getD default } },
    { name := "updated_at", sort := .time, nullable := false, unique := false, indexed := false
      default := .now
      read := fun r => .time r.updated
      write := fun c r => { r with updated := c.time?.getD default } }]

/-- Steps of workflows. -/
def stepTable : Table StepRow where
  name := "workflow_steps"
  model := "WorkflowStep"
  blank := default
  rows := Tables.steps
  setRows := fun rows tables => { tables with steps := rows }
  columns := [
    { name := "workflow_id", sort := .text, nullable := false, unique := false, indexed := true
      default := .null
      read := fun r => .text r.workflow
      write := fun c r => { r with workflow := c.text?.getD "" } },
    { name := "name", sort := .text, nullable := false, unique := false, indexed := false
      default := .null
      read := fun r => .text r.name
      write := fun c r => { r with name := c.text?.getD "" } },
    { name := "type", sort := .text, nullable := false, unique := false, indexed := true
      default := .null
      read := fun r => .text r.type
      write := fun c r => { r with type := c.text?.getD "" } },
    { name := "config", sort := .json, nullable := false, unique := false, indexed := false
      default := .cell (.json (.object []))
      read := fun r => .json r.config
      write := fun c r => { r with config := c.toValue } },
    { name := "position", sort := .int, nullable := false, unique := false, indexed := false
      default := .cell (.int 0)
      read := fun r => .int r.position
      write := fun c r => { r with position := c.int?.getD 0 } },
    { name := "parent_id", sort := .text, nullable := true, unique := false, indexed := true
      default := .null
      read := fun r => .ofText? r.parent
      write := fun c r => { r with parent := c.text? } },
    { name := "next_step_id", sort := .text, nullable := true, unique := false, indexed := false
      default := .null
      read := fun r => .ofText? r.next
      write := fun c r => { r with next := c.text? } },
    { name := "id", sort := .text, nullable := false, unique := true, indexed := true
      default := .rowId
      read := fun r => .text r.id
      write := fun c r => { r with id := c.text?.getD "" } },
    { name := "created_at", sort := .time, nullable := false, unique := false, indexed := false
      default := .now
      read := fun r => .time r.created
      write := fun c r => { r with created := c.time?.getD default } },
    { name := "updated_at", sort := .time, nullable := false, unique := false, indexed := false
      default := .now
      read := fun r => .time r.updated
      write := fun c r => { r with updated := c.time?.getD default } }]

/-- Executions. -/
def executionTable : Table ExecutionRow where
  name := "executions"
  model := "Execution"
  blank := default
  rows := Tables.executions
  setRows := fun rows tables => { tables with executions := rows }
  columns := [
    { name := "workflow_id", sort := .text, nullable := false, unique := false, indexed := true
      default := .null
      read := fun r => .text r.workflow
      write := fun c r => { r with workflow := c.text?.getD "" } },
    { name := "status", sort := .text, nullable := false, unique := false, indexed := true
      default := .cell (.text Status.running.name)
      read := fun r => .text r.status
      write := fun c r => { r with status := c.text?.getD "" } },
    { name := "input", sort := .json, nullable := true, unique := false, indexed := false
      default := .null
      read := fun r => .json r.input
      write := fun c r => { r with input := c.toValue } },
    { name := "output", sort := .json, nullable := true, unique := false, indexed := false
      default := .null
      read := fun r => .json r.output
      write := fun c r => { r with output := c.toValue } },
    { name := "logs", sort := .json, nullable := false, unique := false, indexed := false
      default := .cell (.json (.list []))
      read := fun r => .json r.log
      write := fun c r => { r with log := c.toValue } },
    { name := "error", sort := .text, nullable := true, unique := false, indexed := false
      default := .null
      read := fun r => .ofText? r.error
      write := fun c r => { r with error := c.text? } },
    { name := "triggered_by", sort := .text, nullable := true, unique := false, indexed := false
      default := .null
      read := fun r => .ofText? r.triggeredBy
      write := fun c r => { r with triggeredBy := c.text? } },
    { name := "started_at", sort := .time, nullable := false, unique := false, indexed := true
      default := .now
      read := fun r => .time r.started
      write := fun c r => { r with started := c.time?.getD default } },
    { name := "completed_at", sort := .time, nullable := true, unique := false, indexed := false
      default := .null
      read := fun r => .ofTime? r.completed
      write := fun c r => { r with completed := c.time? } },
    { name := "duration_ms", sort := .int, nullable := true, unique := false, indexed := false
      default := .null
      read := fun r => .ofInt? r.duration
      write := fun c r => { r with duration := c.int? } },
    { name := "id", sort := .text, nullable := false, unique := true, indexed := true
      default := .rowId
      read := fun r => .text r.id
      write := fun c r => { r with id := c.text?.getD "" } },
    { name := "created_at", sort := .time, nullable := false, unique := false, indexed := false
      default := .now
      read := fun r => .time r.created
      write := fun c r => { r with created := c.time?.getD default } },
    { name := "updated_at", sort := .time, nullable := false, unique := false, indexed := false
      default := .now
      read := fun r => .time r.updated
      write := fun c r => { r with updated := c.time?.getD default } }]

/-- Triggers. -/
def triggerTable : Table TriggerRow where
  name := "webhook_triggers"
  model := "WebhookTrigger"
  blank := default
  rows := Tables.triggers
  setRows := fun rows tables => { tables with triggers := rows }
  columns := [
    { name := "workspace_id", sort := .text, nullable := false, unique := false, indexed := true
      default := .null
      read := fun r => .text r.workspace
      write := fun c r => { r with workspace := c.text?.getD "" } },
    { name := "workflow_id", sort := .text, nullable := false, unique := false, indexed := true
      default := .null
      read := fun r => .text r.workflow
      write := fun c r => { r with workflow := c.text?.getD "" } },
    { name := "created_by", sort := .text, nullable := true, unique := false, indexed := false
      default := .null
      read := fun r => .ofText? r.creator
      write := fun c r => { r with creator := c.text? } },
    { name := "name", sort := .text, nullable := false, unique := false, indexed := false
      default := .null
      read := fun r => .text r.name
      write := fun c r => { r with name := c.text?.getD "" } },
    { name := "url", sort := .text, nullable := false, unique := true, indexed := true
      default := .null
      read := fun r => .text r.url
      write := fun c r => { r with url := c.text?.getD "" } },
    { name := "secret", sort := .text, nullable := false, unique := false, indexed := false
      default := .null
      read := fun r => .text r.secret
      write := fun c r => { r with secret := c.text?.getD "" } },
    { name := "active", sort := .bool, nullable := false, unique := false, indexed := true
      default := .cell (.bool true)
      read := fun r => .bool r.active
      write := fun c r => { r with active := c.isTrue } },
    { name := "last_triggered", sort := .time, nullable := true, unique := false, indexed := false
      default := .null
      read := fun r => .ofTime? r.lastTriggered
      write := fun c r => { r with lastTriggered := c.time? } },
    { name := "trigger_count", sort := .int, nullable := false, unique := false, indexed := false
      default := .cell (.int 0)
      read := fun r => .int r.count
      write := fun c r => { r with count := c.int?.getD 0 } },
    { name := "id", sort := .text, nullable := false, unique := true, indexed := true
      default := .rowId
      read := fun r => .text r.id
      write := fun c r => { r with id := c.text?.getD "" } },
    { name := "created_at", sort := .time, nullable := false, unique := false, indexed := false
      default := .now
      read := fun r => .time r.created
      write := fun c r => { r with created := c.time?.getD default } },
    { name := "updated_at", sort := .time, nullable := false, unique := false, indexed := false
      default := .now
      read := fun r => .time r.updated
      write := fun c r => { r with updated := c.time?.getD default } }]

/-- Tasks. -/
def taskTable : Table TaskRow where
  name := "tasks"
  model := "Task"
  blank := default
  rows := Tables.tasks
  setRows := fun rows tables => { tables with tasks := rows }
  columns := [
    { name := "project_id", sort := .text, nullable := true, unique := false, indexed := true
      default := .null
      read := fun r => .ofText? r.project
      write := fun c r => { r with project := c.text? } },
    { name := "title", sort := .text, nullable := false, unique := false, indexed := false
      default := .null
      read := fun r => .text r.title
      write := fun c r => { r with title := c.text?.getD "" } },
    { name := "description", sort := .text, nullable := true, unique := false, indexed := false
      default := .null
      read := fun r => .ofText? r.description
      write := fun c r => { r with description := c.text? } },
    { name := "status", sort := .text, nullable := false, unique := false, indexed := true
      default := .cell (.text defaultTaskStatus)
      read := fun r => .text r.status
      write := fun c r => { r with status := c.text?.getD "" } },
    { name := "priority", sort := .text, nullable := false, unique := false, indexed := false
      default := .cell (.text defaultTaskPriority)
      read := fun r => .text r.priority
      write := fun c r => { r with priority := c.text?.getD "" } },
    { name := "assignee_id", sort := .text, nullable := true, unique := false, indexed := true
      default := .null
      read := fun r => .ofText? r.assignee
      write := fun c r => { r with assignee := c.text? } },
    { name := "id", sort := .text, nullable := false, unique := true, indexed := true
      default := .rowId
      read := fun r => .text r.id
      write := fun c r => { r with id := c.text?.getD "" } },
    { name := "created_at", sort := .time, nullable := false, unique := false, indexed := false
      default := .now
      read := fun r => .time r.created
      write := fun c r => { r with created := c.time?.getD default } },
    { name := "updated_at", sort := .time, nullable := false, unique := false, indexed := false
      default := .now
      read := fun r => .time r.updated
      write := fun c r => { r with updated := c.time?.getD default } }]

/-- Notifications. -/
def notificationTable : Table NotificationRow where
  name := "notifications"
  model := "Notification"
  blank := default
  rows := Tables.notifications
  setRows := fun rows tables => { tables with notifications := rows }
  columns := [
    { name := "user_id", sort := .text, nullable := false, unique := false, indexed := true
      default := .null
      read := fun r => .text r.user
      write := fun c r => { r with user := c.text?.getD "" } },
    { name := "type", sort := .text, nullable := false, unique := false, indexed := false
      default := .cell (.text "notification")
      read := fun r => .text r.type
      write := fun c r => { r with type := c.text?.getD "" } },
    { name := "title", sort := .text, nullable := false, unique := false, indexed := false
      default := .cell (.text "")
      read := fun r => .text r.title
      write := fun c r => { r with title := c.text?.getD "" } },
    { name := "message", sort := .text, nullable := false, unique := false, indexed := false
      default := .cell (.text "")
      read := fun r => .text r.message
      write := fun c r => { r with message := c.text?.getD "" } },
    { name := "is_read", sort := .bool, nullable := false, unique := false, indexed := true
      default := .cell (.bool false)
      read := fun r => .bool r.read
      write := fun c r => { r with read := c.isTrue } },
    { name := "id", sort := .text, nullable := false, unique := true, indexed := true
      default := .rowId
      read := fun r => .text r.id
      write := fun c r => { r with id := c.text?.getD "" } },
    { name := "created_at", sort := .time, nullable := false, unique := false, indexed := false
      default := .now
      read := fun r => .time r.created
      write := fun c r => { r with created := c.time?.getD default } },
    { name := "updated_at", sort := .time, nullable := false, unique := false, indexed := false
      default := .now
      read := fun r => .time r.updated
      write := fun c r => { r with updated := c.time?.getD default } }]

end Stepwise.Store
