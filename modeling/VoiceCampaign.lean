import VoiceCampaign.Properties.Rollup
import VoiceCampaign.Properties.Attempts
import VoiceCampaign.Properties.Schedule
import VoiceCampaign.Properties.Redials
import VoiceCampaign.Properties.Lifecycle
import VoiceCampaign.Properties.Terminal
import VoiceCampaign.Properties.Replay
import VoiceCampaign.Properties.Delivery
import VoiceCampaign.Properties.Keys
import VoiceCampaign.Properties.Retries
import VoiceCampaign.Properties.Fairness
import VoiceCampaign.Properties.DueRetries
import VoiceCampaign.Properties.Stats
import VoiceCampaign.Properties.Pagination
import VoiceCampaign.Properties.CallList
import VoiceCampaign.Properties.Sweeps
import VoiceCampaign.Properties.Backlog
import VoiceCampaign.Properties.Orders
import VoiceCampaign.Properties.Backoff
import VoiceCampaign.Properties.Paths
import VoiceCampaign.Model.Service
import VoiceCampaign.Properties.Requeues
import VoiceCampaign.Properties.Phones
import VoiceCampaign.Properties.Deadlock
import VoiceCampaign.Properties.SweepOrder
import VoiceCampaign.Properties.Answers
import VoiceCampaign.Properties.Outcomes
import VoiceCampaign.Properties.Provider
import VoiceCampaign.Properties.Caps
import VoiceCampaign.Properties.Decisions
import VoiceCampaign.Properties.Polls
import VoiceCampaign.Properties.Listings
